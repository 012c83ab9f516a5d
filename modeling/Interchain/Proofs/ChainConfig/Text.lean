import Interchain.ChainConfig.Reading
import Interchain.Proofs.Document.Printing
import Interchain.Proofs.Hex

/-!
# Configurations read from their canonical text

What is printed and what is read meet in the middle: a configuration has a document, whose text is the canonical
text, and which the readers of records take for this configuration. So canonical texts are read back, valid or not,
and no two configurations share one.

There are no texts with escapes in such a document, and numbers in it are below 2⁶⁴, which is all that is needed of
JSON. Other texts of the same configuration, and the other format, are not considered.
-/

namespace Interchain

/-! ### Documents of configurations -/

namespace Upgrade

def bodyDocument (u : Upgrade) : Document :=
  .object [(some "blockTimestamp", .natural u.timestamp.toNat), (some "disable", .bool u.disabled)]

def document (u : Upgrade) : Document :=
  .object [(some u.key, u.bodyDocument)]

theorem compact_document (u : Upgrade) : u.document.compact = u.compact := rfl

end Upgrade

def Quorum.document (q : Quorum) : Document :=
  .object [(some "numerator", .natural q.numerator.toNat), (some "denominator", .natural q.denominator.toNat)]

namespace ChainConfig

def document (c : ChainConfig) : Document :=
  .object
    [(some "chainId", .text (some (Hex.encode0x c.chainId.bytes))),
      (some "networkId", .natural c.networkId.toNat),
      (some "warpQuorum", c.quorum.document),
      (some "precompileUpgrades", .array (c.upgrades.map Upgrade.document))]

theorem compactItems_upgrades (us : List Upgrade) :
    Document.compactItems (us.map Upgrade.document) = us.map Upgrade.compact := by
  induction us with
  | nil => rfl
  | cons u us ih => rw [List.map_cons, Document.compactItems, ih, u.compact_document, List.map_cons]

/-- The canonical text of a configuration is the text of its document. -/
theorem compact_document (c : ChainConfig) : c.document.compact = c.compact := by
  simp [document, Document.compact, Document.compactMembers, compactItems_upgrades, compact, Compact.hex,
    Quorum.document, Quorum.compact]

end ChainConfig

/-! ### Nothing needs an escape -/

theorem Json.isPlainText_encode0x (bs : Bytes) : Json.IsPlainText (Hex.encode0x bs) := by
  have hdigits : ∀ n ∈ List.range 16, Hex.digit n ≠ '"' ∧ Hex.digit n ≠ '\\' ∧ 32 ≤ (Hex.digit n).toNat := by decide
  intro c hc
  rw [Hex.encode0x, String.toList_append, List.mem_append] at hc
  rcases hc with hmarker | hdigit
  · have : c = '0' ∨ c = 'x' := by simpa using hmarker
    obtain rfl | rfl := this <;> decide
  · obtain ⟨n, hn, rfl⟩ := Hex.mem_encode hdigit
    exact hdigits n (List.mem_range.2 hn)

theorem Json.isPlainText_key (b : BuiltIn) : Json.IsPlainText b.key := by
  cases b
  decide

theorem Upgrade.document_isPlain (u : Upgrade) : u.document.IsPlain :=
  ⟨Json.isPlainText_key u.contract, ⟨by decide, trivial, by decide, trivial, trivial⟩, trivial⟩

theorem Quorum.document_isPlain (q : Quorum) : q.document.IsPlain :=
  ⟨by decide, trivial, by decide, trivial, trivial⟩

namespace ChainConfig

theorem plainItems_upgrades (us : List Upgrade) : Document.PlainItems (us.map Upgrade.document) := by
  induction us with
  | nil => trivial
  | cons u us ih => exact ⟨u.document_isPlain, ih⟩

theorem document_isPlain (c : ChainConfig) : c.document.IsPlain :=
  ⟨by decide, Json.isPlainText_encode0x _, by decide, trivial, by decide, c.quorum.document_isPlain, by decide,
    plainItems_upgrades _, trivial⟩

end ChainConfig

/-! ### Readers -/

namespace Reading

theorem uint64_toNat (n : UInt64) : uint64 (.natural n.toNat) = some n := by
  simp [uint64, natural, n.toNat_lt]

theorem uint32_toNat (n : UInt32) : uint32 (.natural n.toNat) = some n := by
  simp [uint32, natural, n.toNat_lt]

theorem fixedBytes_encode0x (format : Notation) {n : Nat} (x : FixedBytes n) :
    fixedBytes format n (.text (some (Hex.encode0x x.bytes))) = some x := by
  simp [fixedBytes, Hex.decode_dropMarker_encode0x]

/-- The timestamp is one of the numbers that a float holds, and nothing lies inside the body of an upgrade. -/
theorem bodyDocument_kept (u : Upgrade) : u.bodyDocument.isSound ∧ u.bodyDocument.depth + 3 ≤ keptDepth := by
  have hlimit : 2 ^ 64 ≤ Document.floatLimit := by decide +kernel
  have hfloat : u.timestamp.toNat < Document.floatLimit := Nat.lt_of_lt_of_le u.timestamp.toNat_lt hlimit
  constructor
  · simp [Upgrade.bodyDocument, Document.isSound, Document.soundMembers, hfloat]
  · simp [Upgrade.bodyDocument, Document.depth, Document.depthMembers, keptDepth]

theorem upgradeRecord_document (u : Upgrade) : upgradeRecord .json u.bodyDocument = some u := by
  obtain ⟨⟨⟩, timestamp, disabled⟩ := u
  simp [upgradeRecord, Upgrade.bodyDocument, fields, named, required, optional, uint64_toNat, bool]

theorem upgrade_document (u : Upgrade) : upgrade .json 2 u.document = some u := by
  have hkey : u.key = BuiltIn.warpMessenger.key := by
    cases u with
    | mk contract => cases contract; rfl
  have hbody : upgradeBody .json 3 u.bodyDocument = some u := by
    have hkept := bodyDocument_kept u
    have hrecord := upgradeRecord_document u
    rw [Upgrade.bodyDocument] at hkept hrecord ⊢
    rw [upgradeBody, if_pos (Or.inr hkept), hrecord]
  rw [Upgrade.document, upgrade, if_pos hkey, hbody]

theorem list_upgrades (us : List Upgrade) : list (upgrade .json 2) (.array (us.map Upgrade.document)) = some us := by
  rw [list, List.mapM_map]
  induction us with
  | nil => rfl
  | cons u us ih => simp [upgrade_document, ih]

theorem quorum_document (q : Quorum) : quorum .json q.document = some q := by
  simp [quorum, Quorum.document, fields, named, required, uint64_toNat]

/-- The document of a configuration is read as this configuration. -/
theorem config_document (c : ChainConfig) : config .json c.document = some c := by
  simp [config, ChainConfig.document, fields, named, required, optional, fixedBytes_encode0x, uint32_toNat,
    quorum_document, list_upgrades]

end Reading

/-! ### Canonical texts -/

namespace ChainConfig

theorem parseJson_text (c : ChainConfig) : parseJson c.text = some c := by
  have hparse : Json.parse c.text = some c.document := by
    rw [text, ← compact_document, Json.parse_compact c.document_isPlain]
  rw [parseJson, hparse, Option.bind_eq_bind, Option.bind_some, Reading.config_document]

/-- Every configuration is read back from its canonical text, and it is accepted or refused as the configuration itself
is. Two configurations with the same text are the same. -/
theorem text_roundTrip :
    (∀ c : ChainConfig, parseJson c.text = some c ∧
      ofJson c.text =
        match c.validate with
        | .ok () => .ok c
        | .error e => .error (.invalid e)) ∧
      Function.Injective text := by
  refine ⟨fun c => ⟨parseJson_text c, ?_⟩, fun c c' htext => ?_⟩
  · rw [ofJson, parseJson_text]
    rfl
  · have hparse := congrArg parseJson htext
    rw [parseJson_text, parseJson_text] at hparse
    exact Option.some.inj hparse

end ChainConfig

end Interchain
