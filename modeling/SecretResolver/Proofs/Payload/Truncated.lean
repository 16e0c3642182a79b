/-
**Payloads that are cut off.**

Of a payload in JSON or in CBOR no proper beginning decodes, wherever it ends: within a head or a
character, within an escape, or between two entries.  So what was received only in part is never
taken for a shorter secret.

Main results:

* `Payload.decodeAs_json_of_cut`, `Payload.decodeAs_cbor_of_cut` — each encoding by itself;
* `Payload.decode_truncated` — **what is cut off is refused**.
-/

import SecretResolver.Proofs.Cbor.Stable
import SecretResolver.Proofs.Json.Stable
import SecretResolver.Proofs.Payload.RoundTrip

set_option relaxedAutoImplicit false
set_option autoImplicit false

namespace SecretResolver

namespace Payload

variable {p : Payload} {bs more : Bytes}

/-- What is written as JSON is one text or one object. -/
theorem exists_value_json (p : Payload) : ∃ v : Json.Value, v.IsClosed ∧
    Json.valueAt Json.maxDepth (p.encodeAs .json) = .ok (v, []) := by
  cases p with
  | named values =>
      have h := Json.valueAt_writeMembers values.entries []
      rw [List.append_nil] at h
      exact ⟨.object (Json.textValues values.entries), fun _ => nofun, h⟩
  | single value =>
      have h := Json.valueAt_writeText Json.maxDepth value []
      rw [List.append_nil] at h
      exact ⟨.text value, fun _ => nofun, h⟩

/-- What is written as CBOR is one item. -/
theorem exists_item_cbor (hp : p.Measured) :
    ∃ v, Cbor.itemBy (Cbor.itemAfter Cbor.maxDepth) (p.encodeAs .cbor) = .ok (v, []) := by
  cases p with
  | named values =>
      have h := Cbor.item_writeMap (Cbor.maxDepth - 1) [] hp.1 hp.2
      rw [List.append_nil] at h
      exact ⟨_, h⟩
  | single value =>
      have h := Cbor.item_writeText Cbor.maxDepth [] hp
      rw [List.append_nil] at h
      exact ⟨_, h⟩

theorem decodeAs_json_of_cut (h : p.encodeAs .json = bs ++ more) (hmore : more ≠ [])
    (kind : PayloadKind) : ∃ cause, decodeAs bs kind .json = .error cause := by
  obtain ⟨v, hv, hvalue⟩ := exists_value_json p
  rw [h] at hvalue
  obtain ⟨fault, hfault⟩ := Json.read_of_cut hvalue hv hmore
  exact ⟨_, by rw [decodeAs, Document.decode, Document.decodeJson, hfault]⟩

theorem decodeAs_cbor_of_cut (hp : p.Measured) (h : p.encodeAs .cbor = bs ++ more)
    (hmore : more ≠ []) (kind : PayloadKind) : ∃ cause, decodeAs bs kind .cbor = .error cause := by
  obtain ⟨v, hitem⟩ := exists_item_cbor hp
  rw [h] at hitem
  obtain ⟨fault, hfault⟩ := Cbor.read_of_cut hitem hmore
  exact ⟨_, by rw [decodeAs, Document.decode, Document.decodeCbor, hfault]⟩

/-- Under a name of an encoding, what cannot be decoded in that encoding is refused. -/
theorem decode_error_of_name {e : Encoding} {name : String} {kind : PayloadKind}
    {cause : DecryptionCause} (hname : Text.sameIgnoringCase e.name name = true)
    (h : decodeAs bs kind e = .error cause) :
    decode bs kind.name name = .error (.decryption cause) := by
  simp only [decode, payloadKind, PayloadKind.ofName?_name, payloadEncoding,
    ofName?_of_sameIgnoringCase hname, h]
  rfl

/-- **What is cut off is refused.**  The whole of a payload in JSON or in CBOR decodes; no proper
beginning of it does, as a payload of either kind.  The heads of CBOR count in 64 bits. -/
theorem decode_truncated (p : Payload) (name : String)
    (h : Text.sameIgnoringCase "json" name = true ∨
      Text.sameIgnoringCase "cbor" name = true ∧ p.Measured) :
    ∃ bs, p.encode name = .ok bs ∧ (∃ q, decode bs p.kind.name name = .ok q) ∧
      ∀ b, b <+: bs → b ≠ bs → ∀ kind : PayloadKind,
        ∃ cause, decode b kind.name name = .error (.decryption cause) := by
  obtain ⟨e, hname, ⟨q, hq⟩, hcut⟩ : ∃ e : Encoding, Text.sameIgnoringCase e.name name = true ∧
      (∃ q, decodeAs (p.encodeAs e) p.kind e = .ok q) ∧
      ∀ {b more}, p.encodeAs e = b ++ more → more ≠ [] →
        ∀ kind, ∃ cause, decodeAs b kind e = .error cause := by
    rcases h with hname | ⟨hname, hp⟩
    · obtain ⟨q, hq, -⟩ := decodeAs_json p
      exact ⟨.json, hname, ⟨q, hq⟩, decodeAs_json_of_cut⟩
    · exact ⟨.cbor, hname, ⟨p, decodeAs_cbor hp⟩, decodeAs_cbor_of_cut hp⟩
  refine ⟨p.encodeAs e, encode_of_name hname p, ⟨q, decode_of_name hname hq⟩, ?_⟩
  rintro b ⟨more, hb⟩ hne kind
  have hmore : more ≠ [] := by
    rintro rfl
    exact hne (by rwa [List.append_nil] at hb)
  obtain ⟨cause, hcause⟩ := hcut hb.symm hmore kind
  exact ⟨cause, decode_error_of_name hname hcause⟩

/-- An empty name, a control character, a quote and characters of two and of four bytes, in the
encoding that counts. -/
theorem decode_truncated_unicode :
    let p : Payload := .named ⟨[("", "\x01\"é"), ("😀", "")], by decide⟩
    (Text.sameIgnoringCase "json" "Cbor" = true ∨
        Text.sameIgnoringCase "cbor" "Cbor" = true ∧ p.Measured) ∧
      ∃ bs, p.encode "Cbor" = .ok bs ∧ (∃ q, decode bs p.kind.name "Cbor" = .ok q) ∧
        ∀ b, b <+: bs → b ≠ bs → ∀ kind : PayloadKind,
          ∃ cause, decode b kind.name "Cbor" = .error (.decryption cause) := by
  intro p
  have hp : Text.sameIgnoringCase "json" "Cbor" = true ∨
      Text.sameIgnoringCase "cbor" "Cbor" = true ∧ p.Measured := by
    refine .inr ⟨by decide +kernel, by decide, ?_⟩
    intro e he
    simp only [List.mem_cons, List.not_mem_nil, or_false] at he
    rcases he with rfl | rfl <;> decide
  exact ⟨hp, decode_truncated p "Cbor" hp⟩

end Payload

end SecretResolver
