import Mathlib.Data.List.Infix
import TaggedTuple.Proofs.Canonical.Codec
import TaggedTuple.Proofs.Lifting

/-!
# Only encodings are decoded

A codec is exact when a byte list is read as a value if and only if it starts with the bytes that
are written for the value (`Codec.Exact`). One lemma for each codec of the format carries this from
the parts to the whole: half of it says that what was written is read back, the other half that
nothing else is accepted, be it cut off, of the wrong length, with a bad presence byte or not UTF-8.

The length of a string or a list is written as a word of eight bytes, so a codec is exact on values
whose lengths fit into such a word. Every string and every list in memory is that short.

Exactness alone makes a format prefix-free: no encoding starts with the encoding of another value
(`Codec.Exact.eq_of_prefix_write`). The law of canonical tuples is `Codec.decode_exactly_encodings`.
-/

namespace TaggedTuple

variable {α β : Type}

/-- The string is the only one with these bytes. -/
theorem Utf8.decode_eq_ok_iff {bytes : List UInt8} {s : String} :
    Utf8.decode bytes = .ok s ↔ bytes = Utf8.encode s := by
  constructor
  · intro h
    unfold Utf8.decode at h
    cases hs : String.fromUTF8? ⟨bytes.toArray⟩ with
    | none =>
        rw [hs] at h
        cases h
    | some s' =>
        rw [hs] at h
        cases h
        unfold String.fromUTF8? at hs
        split_ifs at hs
        cases hs
        rfl
  · rintro rfl
    exact Utf8.decode_encode s

namespace Codec

/-- A byte list is read as a value exactly if the value has the property and the list starts with
the bytes that are written for it; the bytes behind them are left. -/
def Exact (c : Codec α) (P : α → Prop) : Prop :=
  ∀ bytes a rest, c.read bytes = .ok (a, rest) ↔ P a ∧ bytes = c.write a ++ rest

/-! ### What exactness says about the bytes -/

section exact

variable {c : Codec α} {P : α → Prop} (h : c.Exact P)
include h

/-- A codec with an exact format reads back what it stores. -/
theorem Exact.readsBack {a : α} (ha : P a) : c.ReadsBack a :=
  fun rest => (h _ a rest).mpr ⟨ha, rfl⟩

/-- No encoding starts with the encoding of another value. -/
theorem Exact.eq_of_prefix_write {a b : α} (ha : P a) (hb : P b) (hab : c.write a <+: c.write b) :
    a = b := by
  obtain ⟨rest, hrest⟩ := hab
  have hreadA : c.read (c.write b) = .ok (a, rest) := (h _ a rest).mpr ⟨ha, hrest.symm⟩
  have hreadB : c.read (c.write b) = .ok (b, []) :=
    (h _ b []).mpr ⟨hb, (List.append_nil _).symm⟩
  cases hreadA.symm.trans hreadB
  rfl

end exact

/-! ### Numbers -/

/-- A number is read off exactly the bytes that it is written as, whatever follows. -/
theorem readWord_eq_ok_iff {width n : Nat} {bytes rest : List UInt8} :
    readWord width bytes = .ok (n, rest) ↔
      n < wordCount width ∧ bytes = writeWord width n ++ rest := by
  refine ⟨fun h => ?_, fun ⟨hn, hbytes⟩ => hbytes ▸ readWord_writeWord hn rest⟩
  induction width generalizing n bytes with
  | zero =>
      cases h
      exact ⟨Nat.zero_lt_one, rfl⟩
  | succ width ih =>
      cases bytes with
      | nil => cases h
      | cons b bytes =>
          obtain ⟨⟨high, rest'⟩, hread, heq⟩ := bind_eq_ok_iff.mp h
          cases heq
          obtain ⟨hhigh, rfl⟩ := ih hread
          have hb : b.toNat < 256 := b.toNat_lt
          have hlow : UInt8.ofNat (b.toNat + 256 * high) = b := by
            apply UInt8.toNat_inj.mp
            rw [UInt8.toNat_ofNat']
            omega
          have hdiv : (b.toNat + 256 * high) / 256 = high := by omega
          refine ⟨?_, ?_⟩
          · rw [wordCount]
            omega
          · rw [writeWord, hlow, hdiv, List.cons_append]

/-- The format of 32-bit numbers is exact. -/
theorem exact_uint32 : uint32.Exact fun _ => True := by
  intro bytes n rest
  refine ⟨fun h => ?_, fun ⟨_, hbytes⟩ => hbytes ▸ readsBack_uint32 n rest⟩
  obtain ⟨⟨m, rest'⟩, hread, heq⟩ := bind_eq_ok_iff.mp h
  cases heq
  obtain ⟨hm, rfl⟩ := readWord_eq_ok_iff.mp hread
  refine ⟨trivial, ?_⟩
  show _ = writeWord 4 (UInt32.ofNat m).toNat ++ rest
  rw [UInt32.toNat_ofNat_of_lt' hm]

/-- The format of 64-bit integers is exact. -/
theorem exact_int64 : int64.Exact fun _ => True := by
  intro bytes n rest
  refine ⟨fun h => ?_, fun ⟨_, hbytes⟩ => hbytes ▸ readsBack_int64 n rest⟩
  obtain ⟨⟨m, rest'⟩, hread, heq⟩ := bind_eq_ok_iff.mp h
  cases heq
  obtain ⟨hm, rfl⟩ := readWord_eq_ok_iff.mp hread
  refine ⟨trivial, ?_⟩
  show _ = writeWord 8 (UInt64.ofNat m).toInt64.toUInt64.toNat ++ rest
  rw [UInt64.toUInt64_toInt64, UInt64.toNat_ofNat_of_lt' hm]

/-! ### Strings -/

/-- Strings whose length in bytes fits into a word. -/
theorem exact_string : string.Exact fun s => (Utf8.encode s).length < UInt64.size := by
  intro bytes s rest
  refine ⟨fun h => ?_, fun ⟨hs, hbytes⟩ => hbytes ▸ readsBack_string hs rest⟩
  obtain ⟨⟨length, rest'⟩, hread, hchecked⟩ := bind_eq_ok_iff.mp h
  obtain ⟨hlength, rfl⟩ := readWord_eq_ok_iff.mp hread
  dsimp only at hchecked
  split_ifs at hchecked with hle
  · cases hdecode : Utf8.decode (rest'.take length) with
    | error fault =>
        rw [hdecode] at hchecked
        cases hchecked
    | ok s' =>
        rw [hdecode] at hchecked
        cases hchecked
        have htake := Utf8.decode_eq_ok_iff.mp hdecode
        have hbytes : (Utf8.encode s).length = length := by
          rw [← htake, List.length_take_of_le hle]
        refine ⟨lt_of_eq_of_lt hbytes hlength, ?_⟩
        show _ = writeWord 8 (Utf8.encode s).length ++ Utf8.encode s ++ _
        rw [hbytes, ← htake, List.append_assoc, List.take_append_drop]

/-! ### Composite values -/

section composite

variable {c : Codec α} {d : Codec β} {P : α → Prop} {Q : β → Prop} (hc : c.Exact P)
include hc

/-- The format of options is exact if that of the values is. -/
theorem exact_option : c.option.Exact fun a? => ∀ a, a? = some a → P a := by
  intro bytes a? rest
  constructor
  · intro h
    cases bytes with
    | nil => cases h
    | cons b bytes =>
        simp only [option] at h
        split_ifs at h with hzero hone
        · cases h
          refine ⟨by simp, ?_⟩
          rw [hzero]
          rfl
        · obtain ⟨⟨a, rest'⟩, hread, heq⟩ := bind_eq_ok_iff.mp h
          cases heq
          obtain ⟨ha, rfl⟩ := (hc _ _ _).mp hread
          refine ⟨fun a' ha' => Option.some.inj ha' ▸ ha, ?_⟩
          rw [hone]
          rfl
  · rintro ⟨ha, rfl⟩
    exact readsBack_option (fun a hsome => hc.readsBack (ha a hsome)) rest

/-- The format of pairs is exact if those of the components are. -/
theorem exact_pair (hd : d.Exact Q) : (c.pair d).Exact fun p => P p.1 ∧ Q p.2 := by
  rintro bytes ⟨a, b⟩ rest
  constructor
  · intro h
    obtain ⟨⟨a', rest'⟩, hread, h⟩ := bind_eq_ok_iff.mp h
    obtain ⟨⟨b', rest''⟩, hread', heq⟩ := bind_eq_ok_iff.mp h
    cases heq
    obtain ⟨ha, rfl⟩ := (hc _ _ _).mp hread
    obtain ⟨hb, rfl⟩ := (hd _ _ _).mp hread'
    exact ⟨⟨ha, hb⟩, (List.append_assoc ..).symm⟩
  · rintro ⟨⟨ha, hb⟩, rfl⟩
    exact readsBack_pair (hc.readsBack ha) (hd.readsBack hb) rest

/-- A number of elements is read off exactly the bytes that they are written as, one behind the
other. -/
theorem readMany_eq_ok_iff {count : Nat} {bytes rest : List UInt8} {as : List α} :
    c.readMany count bytes = .ok (as, rest) ↔
      as.length = count ∧ (∀ a ∈ as, P a) ∧ bytes = as.flatMap c.write ++ rest := by
  constructor
  · intro h
    induction count generalizing bytes as with
    | zero =>
        cases h
        exact ⟨rfl, by simp, rfl⟩
    | succ count ih =>
        obtain ⟨⟨a, rest'⟩, hread, h⟩ := bind_eq_ok_iff.mp h
        obtain ⟨⟨as', rest''⟩, hmany, heq⟩ := bind_eq_ok_iff.mp h
        cases heq
        obtain ⟨ha, rfl⟩ := (hc _ _ _).mp hread
        obtain ⟨rfl, has, rfl⟩ := ih hmany
        refine ⟨rfl, List.forall_mem_cons.mpr ⟨ha, has⟩, ?_⟩
        rw [List.flatMap_cons, List.append_assoc]
  · rintro ⟨rfl, has, rfl⟩
    exact readMany_flatMap (fun a ha => hc.readsBack (has a ha)) rest

/-- The format of lists is exact if that of the elements is; their number has to fit its word. -/
theorem exact_list : c.list.Exact fun as => as.length < UInt64.size ∧ ∀ a ∈ as, P a := by
  intro bytes as rest
  constructor
  · intro h
    obtain ⟨⟨count, rest'⟩, hread, hmany⟩ := bind_eq_ok_iff.mp h
    obtain ⟨hcount, rfl⟩ := readWord_eq_ok_iff.mp hread
    obtain ⟨rfl, has, rfl⟩ := (readMany_eq_ok_iff hc).mp hmany
    exact ⟨⟨hcount, has⟩, (List.append_assoc ..).symm⟩
  · rintro ⟨⟨hlength, has⟩, rfl⟩
    exact readsBack_list hlength (fun a ha => hc.readsBack (has a ha)) rest

end composite

end Codec

/-! ### Canonical tuples -/

/-- All lengths fit into their words and the members have the property. -/
structure CanonicalTuple.Storable (x : CanonicalTuple α) (P : α → Prop) : Prop where
  tag : ∀ name, x.tag = some name → (Utf8.encode name).length < UInt64.size
  positional_length : x.positional.length < UInt64.size
  positional : ∀ a ∈ x.positional, P a
  named_length : x.named.length < UInt64.size
  named : ∀ m ∈ x.named, (Utf8.encode m.1).length < UInt64.size ∧ P m.2

namespace Codec

section canonical

variable {c : Codec α} {P : α → Prop} (hc : c.Exact P)
include hc

/-- The format of canonical forms is exact if that of the members is. -/
theorem exact_canonical : c.canonical.Exact (·.Storable P) := by
  intro bytes x rest
  constructor
  · intro h
    obtain ⟨⟨tag, rest₁⟩, htag, h⟩ := bind_eq_ok_iff.mp h
    obtain ⟨⟨count, rest₂⟩, hcount, h⟩ := bind_eq_ok_iff.mp h
    obtain ⟨⟨positional, rest₃⟩, hpositional, h⟩ := bind_eq_ok_iff.mp h
    obtain ⟨⟨named, rest₄⟩, hnamed, heq⟩ := bind_eq_ok_iff.mp h
    cases heq
    obtain ⟨hname, rfl⟩ := (exact_option exact_string _ _ _).mp htag
    obtain ⟨-, rfl⟩ := (exact_uint32 _ _ _).mp hcount
    obtain ⟨⟨hlength, hmembers⟩, rfl⟩ := (exact_list hc _ _ _).mp hpositional
    obtain ⟨⟨hlength', hentries⟩, rfl⟩ := (exact_list (exact_pair exact_string hc) _ _ _).mp hnamed
    refine ⟨⟨hname, hlength, hmembers, hlength', hentries⟩, ?_⟩
    simp only [canonical, List.append_assoc]
  · rintro ⟨hx, rfl⟩
    refine Encodable.readsBack ⟨fun name hname => readsBack_string (hx.tag name hname),
      hx.positional_length, fun a ha => hc.readsBack (hx.positional a ha), hx.named_length,
      fun m hm => ?_⟩ rest
    exact ⟨readsBack_string (hx.named m hm).1, hc.readsBack (hx.named m hm).2⟩

/-- Decoding accepts exactly the texts that start with an encoding. -/
theorem decode_eq_ok_iff {bytes : List UInt8} {x : CanonicalTuple α} :
    c.decode bytes = .ok x ↔ x.Storable P ∧ c.encode x <+: bytes := by
  have hdecode : c.decode bytes = .ok x ↔ ∃ rest, c.canonical.read bytes = .ok (x, rest) := by
    unfold decode
    rcases c.canonical.read bytes with e | ⟨y, rest⟩ <;> simp
  rw [hdecode]
  simp only [exact_canonical hc _ _ _, exists_and_left]
  exact and_congr_right fun _ => exists_congr fun rest => eq_comm

omit hc in
/-- Whatever cannot be decoded is refused with an error of the codec. -/
theorem decode_cases (c : Codec α) (bytes : List UInt8) :
    (∃ x, c.decode bytes = .ok x) ∨ ∃ e, c.decode bytes = .error (.codec e) := by
  unfold decode
  rcases c.canonical.read bytes with e | ⟨x, rest⟩
  · exact .inr ⟨e, rfl⟩
  · exact .inl ⟨x, rfl⟩

/-- Bytes are decoded to a canonical tuple exactly if they start with its encoding. So a tuple is
decoded from its encoding, different tuples have different encodings, none of which is the beginning
of another, and an encoding that is cut off is refused. -/
theorem decode_exactly_encodings :
    (∀ bytes x, c.decode bytes = .ok x ↔ x.Storable P ∧ c.encode x <+: bytes) ∧
    ∀ x : CanonicalTuple α, x.Storable P →
      c.decode (c.encode x) = .ok x ∧
      (∀ y : CanonicalTuple α, y.Storable P → c.encode y = c.encode x → y = x) ∧
      (∀ y : CanonicalTuple α, y.Storable P → c.encode y <+: c.encode x →
        c.encode y = c.encode x) ∧
      ∀ bytes, bytes <+: c.encode x → bytes ≠ c.encode x →
        ∃ e, c.decode bytes = .error (.codec e) := by
  refine ⟨fun bytes x => decode_eq_ok_iff hc, fun x hx => ?_⟩
  have hbegins : ∀ y : CanonicalTuple α, y.Storable P → c.encode y <+: c.encode x → y = x :=
    fun y hy => (exact_canonical hc).eq_of_prefix_write hy hx
  refine ⟨(decode_eq_ok_iff hc).mpr ⟨hx, List.prefix_rfl⟩, fun y hy hyx => ?_, fun y hy hyx => ?_,
    fun bytes hbytes hne => ?_⟩
  · exact hbegins y hy (hyx ▸ List.prefix_rfl)
  · rw [hbegins y hy hyx]
  · refine (decode_cases c bytes).resolve_left fun ⟨y, hy⟩ => hne ?_
    -- the encoding that was found is that of the tuple, so nothing is missing
    obtain ⟨hstorable, hfound⟩ := (decode_eq_ok_iff hc).mp hy
    obtain rfl := hbegins y hstorable (hfound.trans hbytes)
    exact hbytes.eq_of_length_le hfound.length_le

end canonical

/-- A tagged point of integers, with a byte behind its encoding and with its last byte missing, and
a record of one string under the empty name. -/
theorem decode_exactly_encodings_of_point :
    let point : CanonicalTuple Int64 := ⟨some "Point", 1, [.ofNat 7], [("x", .ofInt (-1))]⟩
    let record : CanonicalTuple String := ⟨none, 0, [], [("", "é")]⟩
    int64.decode (int64.encode point ++ [9]) = .ok point ∧
      (∃ e, int64.decode (int64.encode point).dropLast = .error (.codec e)) ∧
      string.decode (string.encode record) = .ok record := by
  intro point record
  have hpoint : point.Storable fun _ => True :=
    ⟨fun name h => by cases h; decide, by decide, by simp, by decide, by decide⟩
  have hrecord : record.Storable fun s => (Utf8.encode s).length < UInt64.size :=
    ⟨nofun, by decide, by decide, by decide, by decide⟩
  obtain ⟨hdecode, hencoded⟩ := decode_exactly_encodings exact_int64
  obtain ⟨-, -, -, hcut⟩ := hencoded point hpoint
  have hne : (int64.encode point).dropLast ≠ int64.encode point := by decide
  have hshorter := List.dropLast_prefix (int64.encode point)
  obtain ⟨-, hencoded'⟩ := decode_exactly_encodings exact_string
  exact ⟨(hdecode _ point).mpr ⟨hpoint, List.prefix_append _ _⟩, hcut _ hshorter hne,
    (hencoded' record hrecord).1⟩

end Codec

end TaggedTuple
