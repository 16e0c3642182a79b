/-
**Reading what was written as CBOR.**

A head gives back its number as long as it has no more than 64 bits, in each of the five widths.  A
text is read back through chunks, and a chunk may end within a character: its bytes so far are then
carried over into the next chunk.

Main results:

* `Cbor.head_writeHead` — a head is read back;
* `Cbor.chunks_encode` — a text is read back through chunks;
* `Cbor.read_writeText`, `Cbor.read_writeMap` — **texts and maps of texts are read back**.
-/

import Mathlib.Tactic.Ring
import SecretResolver.Cbor.Writer
import SecretResolver.Proofs.Text.Utf8

set_option relaxedAutoImplicit false
set_option autoImplicit false

namespace SecretResolver

namespace Cbor

/-! ### Heads -/

theorem length_bigEndian (width n : Nat) : (bigEndian width n).length = width := by
  induction width with
  | zero => rfl
  | succ width ih => rw [bigEndian, List.length_cons, ih]

theorem foldl_bigEndian (acc width n : Nat) :
    (bigEndian width n).foldl (fun n b => 256 * n + b.toNat) acc =
      acc * 256 ^ width + n % 256 ^ width := by
  induction width generalizing acc with
  | zero => simp [bigEndian, Nat.mod_one]
  | succ width ih =>
      have hbyte : (UInt8.ofNat (n / Nat.pow 256 width)).toNat = n / 256 ^ width % 256 :=
        UInt8.toNat_ofNat'
      rw [bigEndian, List.foldl_cons, ih, hbyte, Nat.pow_succ, Nat.mod_mul]
      ring

theorem ofBigEndian_bigEndian (width : Nat) {n : Nat} (h : n < 256 ^ width) :
    ofBigEndian (bigEndian width n) = n := by
  rw [ofBigEndian, foldl_bigEndian, Nat.zero_mul, Nat.zero_add, Nat.mod_eq_of_lt h]

theorem takeBytes_append (bs rest : Bytes) :
    takeBytes bs.length (bs ++ rest) = .ok (bs, rest) := by
  simp [takeBytes]

theorem takeBytes_bigEndian (width n : Nat) (rest : Bytes) :
    takeBytes width (bigEndian width n ++ rest) = .ok (bigEndian width n, rest) := by
  have h := takeBytes_append (bigEndian width n) rest
  rwa [length_bigEndian] at h

/-- The number of a head in its shortest form. -/
theorem argument_bigEndian {n : Nat} (left : Nat) (rest : Bytes) (hn : n < 2 ^ 64) :
    argument (lowBits (leastWidth n) n) left (bigEndian (leastWidth n) n ++ rest) =
      .ok (some ⟨leastWidth n, n⟩, rest) := by
  unfold leastWidth
  split
  · rename_i h
    simp [lowBits, argument, h, bigEndian]
  · split
    · rename_i h
      simp [lowBits, argument, widthOf?, takeBytes_bigEndian, ofBigEndian_bigEndian 1 h]
    · split
      · rename_i h
        simp [lowBits, argument, widthOf?, takeBytes_bigEndian,
          ofBigEndian_bigEndian 2 h]
      · split
        · rename_i h
          simp [lowBits, argument, widthOf?, takeBytes_bigEndian,
            ofBigEndian_bigEndian 4 h]
        · simp [lowBits, argument, widthOf?, takeBytes_bigEndian,
            ofBigEndian_bigEndian 8 hn]

theorem lowBits_lt (n : Nat) : lowBits (leastWidth n) n < 32 := by
  unfold leastWidth
  repeat' split
  all_goals
    simp only [lowBits]
    omega

/-- **A head is read back.** -/
theorem head_writeHead {n : Nat} {h : Head} (kind : Nat) (rest : Bytes) (hkind : kind < 8)
    (hn : n < 2 ^ 64) (hh : headOf? kind (some ⟨leastWidth n, n⟩) = some h) :
    head (writeHead kind n ++ rest) = .ok (h, rest) := by
  have hlow := lowBits_lt n
  have hbyte : (UInt8.ofNat (32 * kind + lowBits (leastWidth n) n)).toNat =
      32 * kind + lowBits (leastWidth n) n := by
    rw [UInt8.toNat_ofNat']
    omega
  have hrem : (32 * kind + lowBits (leastWidth n) n) % 32 = lowBits (leastWidth n) n := by omega
  have hquot : (32 * kind + lowBits (leastWidth n) n) / 32 = kind := by omega
  simp only [writeHead, List.cons_append, head, hbyte, hrem, hquot, argument_bigEndian _ rest hn,
    hh]

/-! ### Texts -/

/-- **A text is read back through chunks.**  What the last chunk was cut off within begins the
bytes of the rest of the text. -/
theorem chunks_encode {cs : List Char} {cut bs : Bytes} {fuel : Nat} (left : Nat) (rest : Bytes)
    (hcs : Utf8.encode cs = cut ++ bs) (hcut : Utf8.step cut = .cut) (hshort : cut.length ≤ 3)
    (hfuel : bs.length < fuel) :
    chunks left fuel cut bs.length (bs ++ rest) = .ok (cs, rest) := by
  induction fuel generalizing cs cut bs with
  | zero => omega
  | succ fuel ih =>
      by_cases hbs : bs = []
      · -- nothing is left to read, so nothing can be cut off
        subst hbs
        rw [List.append_nil] at hcs
        have hdecode := Utf8.decode_encode cs
        rw [hcs, Utf8.decode_of_cut hcut] at hdecode
        obtain ⟨rfl, rfl⟩ := Prod.mk.inj hdecode
        rfl
      · have hpos : 0 < bs.length := List.length_pos_iff.2 hbs
        obtain ⟨size, hsize⟩ : ∃ size, size = min bs.length (chunkSize - cut.length) := ⟨_, rfl⟩
        have hbounds : 0 < size ∧ size ≤ bs.length := by
          rw [chunkSize] at hsize
          omega
        have hsplit : Utf8.encode cs = (cut ++ bs.take size) ++ bs.drop size := by
          rw [hcs, List.append_assoc, List.take_append_drop]
        obtain ⟨ds, es, cut', rfl, hdecode, hp, hcut', hshort'⟩ := Utf8.decode_of_append hsplit
        have hes : Utf8.encode es = cut' ++ bs.drop size := by
          rw [Utf8.encode_append, hp, List.append_assoc] at hsplit
          exact List.append_cancel_left hsplit
        have htake : takeBytes size (bs ++ rest) = .ok (bs.take size, bs.drop size ++ rest) := by
          have h := takeBytes_append (bs.take size) (bs.drop size ++ rest)
          rwa [← List.append_assoc, List.take_append_drop, List.length_take,
            Nat.min_eq_left hbounds.2] at h
        have hlen : (bs.drop size).length = bs.length - size := List.length_drop
        have hmore := ih hes hcut' hshort' (by omega)
        rw [hlen] at hmore
        simp only [chunks, if_neg (Nat.ne_of_gt hpos), ← hsize, htake, hdecode, hcut', hmore]
        simp

theorem head_writeText {s : String} (rest : Bytes) (hs : (Utf8.ofString s).length < 2 ^ 64) :
    head (writeText s ++ rest) =
      .ok (.text (some (Utf8.ofString s).length), Utf8.ofString s ++ rest) := by
  rw [writeText, List.append_assoc]
  exact head_writeHead 3 _ (by decide) hs rfl

theorem itemAfter_text (depth : Nat) (s : String) (rest : Bytes) :
    itemAfter depth (.text (some (Utf8.ofString s).length)) (Utf8.ofString s ++ rest) =
      .ok (.text s, rest) := by
  have htext (left : Nat) : textChunk left (Utf8.ofString s).length (Utf8.ofString s ++ rest) =
      .ok (s.toList, rest) := by
    refine chunks_encode left rest rfl rfl (Nat.zero_le 3) ?_
    rw [List.length_append]
    omega
  cases depth <;> simp [itemAfter, textOf, htext, mapResult]

theorem item_writeText {s : String} (depth : Nat) (rest : Bytes)
    (hs : (Utf8.ofString s).length < 2 ^ 64) :
    itemBy (itemAfter depth) (writeText s ++ rest) = .ok (.text s, rest) := by
  simp only [itemBy, head_writeText rest hs, itemAfter_text]

/-- What is left after an item does not matter. -/
theorem read_of_item {bs rest : Bytes} {v : Value}
    (h : itemBy (itemAfter maxDepth) bs = .ok (v, rest)) : read bs = .ok v := by
  simp only [read, h]

/-- **A text is read back.** -/
theorem read_writeText {s : String} (hs : (Utf8.ofString s).length < 2 ^ 64) :
    read (writeText s) = .ok (.text s) := by
  have hitem := item_writeText maxDepth [] hs
  rw [List.append_nil] at hitem
  exact read_of_item hitem

/-! ### Maps -/

/-- Texts with names, as they are found in a map. -/
def textEntries (es : List (String × String)) : List (Value × Value) :=
  es.map fun e => (.text e.1, .text e.2)

theorem exactly_writeText {es : List (String × String)} (depth : Nat) (rest : Bytes)
    (hes : ∀ e ∈ es, (Utf8.ofString e.1).length < 2 ^ 64 ∧ (Utf8.ofString e.2).length < 2 ^ 64) :
    exactly (entryBy (itemAfter depth)) es.length
      ((es.flatMap fun e => writeText e.1 ++ writeText e.2) ++ rest) =
      .ok (textEntries es, rest) := by
  induction es with
  | nil => rfl
  | cons e es ih =>
      obtain ⟨hname, hvalue⟩ := hes e (List.mem_cons_self ..)
      have ih := ih fun e' he' => hes e' (List.mem_cons_of_mem _ he')
      rw [List.flatMap_cons, List.append_assoc, List.append_assoc, List.length_cons]
      simp only [exactly, head_writeText _ hname, entryBy, itemAfter_text, itemBy,
        head_writeText _ hvalue, ih]
      rfl

theorem item_writeMap {es : List (String × String)} (depth : Nat) (rest : Bytes)
    (hlen : es.length < 2 ^ 64)
    (hes : ∀ e ∈ es, (Utf8.ofString e.1).length < 2 ^ 64 ∧ (Utf8.ofString e.2).length < 2 ^ 64) :
    itemBy (itemAfter (depth + 1)) (writeMap es ++ rest) = .ok (.map (textEntries es), rest) := by
  have hhead := head_writeHead 5
    ((es.flatMap fun e => writeText e.1 ++ writeText e.2) ++ rest) (by decide) hlen rfl
  rw [writeMap, List.append_assoc, itemBy, hhead]
  simp only [Option.map_some, itemAfter, elements, exactly_writeText depth rest hes, mapResult]

/-- **A map of texts is read back.** -/
theorem read_writeMap {es : List (String × String)} (hlen : es.length < 2 ^ 64)
    (hes : ∀ e ∈ es, (Utf8.ofString e.1).length < 2 ^ 64 ∧ (Utf8.ofString e.2).length < 2 ^ 64) :
    read (writeMap es) = .ok (.map (textEntries es)) := by
  have hitem := item_writeMap (maxDepth - 1) [] hlen hes
  rw [List.append_nil] at hitem
  exact read_of_item hitem

end Cbor

end SecretResolver
