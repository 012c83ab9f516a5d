import Interchain.Proofs.Abi
import Interchain.Proofs.Message.Codec
import Interchain.Proofs.Precompile.Agreement

/-!
# Delivering a message

A caller finds the message in the result of a call, with the mark that it is verified: the result is two words and a
tuple, and the tuple is words with a byte string behind them. A message that was read is short enough for all of
this to fit.

`Messenger.ReadyToRead` gathers what a call needs to be given a message. That is enough for every message whose
envelope and itself are well-formed, whatever they say.
-/

namespace Interchain.Messenger

variable {costs : GasCosts} {c : Call} {s : Overlay} {i : Word} {m : Message}
  {messages : List Bytes} {payload bs : Bytes} {signed : SignedEnvelope}

/-! ### The result of a call -/

/-- The words at the front of the tuple in a result. -/
def tupleWords (m : Message) : List Hash32 :=
  [m.originChain, m.sender, m.destinationChain, m.recipient]

/-- The tuple at the end of a result: the parts of the message. -/
def encodeTuple (m : Message) : Bytes :=
  (tupleWords m).flatMap (·.bytes) ++ Abi.ofNat (5 * Abi.wordSize) ++ Abi.bytesTail m.payload

theorem encodeMessage_eq (m : Message) (verified : Bool) :
    encodeMessage m verified = Abi.ofNat 64 ++ Abi.ofBool verified ++ encodeTuple m := by
  simp only [encodeMessage, encodeTuple, tupleWords, List.flatMap_cons, List.flatMap_nil, List.append_nil,
    List.append_assoc]
  rfl

theorem wordAt?_encodeTuple (k : Nat) {w : Hash32} (offset : UInt64) (hk : (tupleWords m)[k]? = some w)
    (hoffset : offset.toNat = 32 * k) : Abi.wordAt? (encodeTuple m) offset = some w := by
  refine Abi.wordAt?_of_words (Abi.ofNat (5 * Abi.wordSize) ++ Abi.bytesTail m.payload) (tupleWords m)
    ?_ hk hoffset ?_
  · rw [encodeTuple, List.append_assoc]
  · show 32 * 4 < 2 ^ 64
    decide

theorem bytesAt?_encodeTuple (h : m.payload.length < 2 ^ 32) :
    Abi.bytesAt? (encodeTuple m) 128 = some m.payload := by
  refine Abi.bytesAt?_of_words (tupleWords m) (5 * Abi.wordSize) rfl rfl rfl ?_
  show 160 + 32 + m.payload.length < 2 ^ 64
  omega

/-- A caller finds the message in the result of a call, with the mark that it is verified. -/
theorem unpackMessage_encodeMessage (h : m.payload.length < 2 ^ 32) :
    unpackMessage (encodeMessage m true) = some (m, true) := by
  have hoffset : Abi.offsetAt? (encodeMessage m true) 0 = some 64 := by
    refine Abi.offsetAt?_of_append [] 64 (Abi.ofBool true ++ encodeTuple m)
      ?_ rfl (by decide) (by decide)
    rw [encodeMessage_eq, List.append_assoc]
    rfl
  have hmark : Abi.numberAt? (encodeMessage m true) 32 = some 1 := by
    refine Abi.numberAt?_of_append (Abi.ofNat 64) 1 (encodeTuple m) ?_ rfl (by decide)
    rw [encodeMessage_eq]
    rfl
  have hhead : (Abi.ofNat 64 ++ Abi.ofBool true).length = 64 := by
    rw [List.length_append, Abi.ofBool, Abi.ofNat, Abi.ofNat, Bytes.length_ofNat, Bytes.length_ofNat]
    rfl
  have htuple : (encodeMessage m true).drop (64 : UInt64).toNat = encodeTuple m := by
    rw [encodeMessage_eq]
    exact List.drop_left' hhead
  have hbound : ¬ (64 : UInt64).toNat > (encodeMessage m true).length := by
    rw [encodeMessage_eq, List.length_append, hhead]
    exact Nat.not_lt_of_le (Nat.le_add_right _ _)
  unfold unpackMessage
  simp only [hoffset, hmark, Option.bind_eq_bind, Option.bind_some, if_neg hbound, htuple]
  rw [wordAt?_encodeTuple 0 0 rfl rfl, Option.bind_some,
    wordAt?_encodeTuple 1 32 rfl rfl, Option.bind_some,
    wordAt?_encodeTuple 2 64 rfl rfl, Option.bind_some,
    wordAt?_encodeTuple 3 96 rfl rfl, Option.bind_some, bytesAt?_encodeTuple h,
    Option.bind_some]
  simp only [decide_true]
  rfl

/-- A message that was read from a string is short enough for this. -/
theorem unpackMessage_of_decode (h : Message.decode bs = .ok m) :
    unpackMessage (encodeMessage m true) = some (m, true) := by
  have hle : ∀ n ∈ m.fieldSizes, n ≤ Wire.maxFieldSize := (Message.decode_eq_ok_iff.1 h).1
  exact unpackMessage_encodeMessage (Nat.lt_of_le_of_lt (hle _ (List.mem_singleton_self _)) (by decide))

/-! ### Reading for good -/

/-- A call that may change the state, asks for the message at an index of the payload that is attached, and can pay
for so many signers. -/
structure ReadyToRead (costs : GasCosts) (c : Call) (s : Overlay) (payload : Bytes) (i : Word)
    (signers : Nat) : Prop where
  input : c.input = packGetMessage i
  attached : s.attached.get? address = some payload
  writable : c.readOnly = false
  gas : costs.getMessage.toNat + costs.perSigner.toNat * signers ≤ c.gas.toNat

/-- A call that is ready delivers a message whose envelope and itself are well-formed, whatever they say. -/
theorem run_of_readyToRead (scheme : SignatureScheme) (quorum : Quorum) (env : Environment)
    (h : ReadyToRead costs c s payload i signed.signature.signers.count)
    (hd : Predicate.decodeList payload = .ok messages) (hb : messages[i.toNat]? = some bs)
    (hs : SignedEnvelope.decode bs = .ok signed)
    (hm : Message.decode signed.envelope.payload = .ok m) :
    ∃ rest : UInt64, rest.toNat +
        (costs.getMessage.toNat + costs.perSigner.toNat * signed.signature.signers.count) = c.gas.toNat ∧
      ((precompile scheme costs quorum).run env c).run s = (.ok ⟨encodeMessage m true, rest⟩, s) := by
  have hgas := h.gas
  obtain ⟨gas, hleft, hrun⟩ := run_packGetMessage_of_le scheme quorum env s h.input h.writable
    (Nat.le_trans (Nat.le_add_right _ _) hgas)
  have hfit : costs.perSigner.toNat * signed.signature.signers.count < 2 ^ 64 :=
    Nat.lt_of_le_of_lt (Nat.le_trans (Nat.le_add_left _ _) hgas) c.gas.toNat_lt
  obtain ⟨surcharge, -, hcost⟩ := exists_surcharge hfit
  have hle : surcharge.toNat ≤ gas.toNat := by omega
  obtain ⟨rest, -, hpaid⟩ := exists_charge hle
  refine ⟨rest, by omega, ?_⟩
  have hread : readMessage costs { c with input := i.toBytes, gas } bs =
      .ok ⟨encodeMessage m true, rest⟩ := by
    refine readMessage_eq_ok_iff.2 ⟨signed, m, hs, ?_, hm, rfl⟩
    show gas.toNat = _ + rest.toNat
    omega
  rw [hrun, h.attached, read_of_decodeList (c := { c with input := i.toBytes, gas }) (i := i) rfl hd, hb]
  exact congrArg (·, s) hread

end Interchain.Messenger
