import TaggedTuple.Canonical.Codec

/-!
# Reading back what was written

A codec reads a value back when the bytes that it writes for the value, with any other bytes behind
them, are read as that value and leave the other bytes (`Codec.ReadsBack`). Numbers that fit into
their words are read back, and so are the composite values whose parts are: one lemma for each
codec. Together they give the law of canonical tuples (`Codec.Encodable.decode_encode`).
-/

namespace TaggedTuple

/-- The bytes of a string are read as that string. -/
theorem Utf8.decode_encode (s : String) : Utf8.decode (Utf8.encode s) = .ok s := by
  have hbytes : (⟨(Utf8.encode s).toArray⟩ : ByteArray) = s.toByteArray := rfl
  unfold Utf8.decode
  rw [hbytes, String.fromUTF8?, dif_pos s.isValidUTF8]
  rfl

namespace Codec

variable {α β : Type}

/-- What the codec writes for the value is read as the value, and nothing more is read. -/
def ReadsBack (c : Codec α) (a : α) : Prop := ∀ rest, c.read (c.write a ++ rest) = .ok (a, rest)

/-! ### Numbers -/

/-- How many numbers there are of a width in bytes. -/
def wordCount : (width : Nat) → Nat
  | 0 => 1
  | width + 1 => 256 * wordCount width

/-- Four bytes hold the numbers of a 32-bit word. -/
theorem wordCount_four : wordCount 4 = UInt32.size := rfl

/-- Eight bytes hold the numbers of a 64-bit word. -/
theorem wordCount_eight : wordCount 8 = UInt64.size := rfl

/-- A number that fits into the width is read back. -/
theorem readWord_writeWord {width n : Nat} (h : n < wordCount width) (rest : List UInt8) :
    readWord width (writeWord width n ++ rest) = .ok (n, rest) := by
  induction width generalizing n with
  | zero =>
      obtain rfl : n = 0 := Nat.lt_one_iff.mp h
      rfl
  | succ width ih =>
      have hhigh : n / 256 < wordCount width := Nat.div_lt_of_lt_mul h
      have hlow : (UInt8.ofNat n).toNat + 256 * (n / 256) = n := Nat.mod_add_div n 256
      simp only [writeWord, List.cons_append, readWord, ih hhigh, bind, Except.bind, hlow]
      rfl

/-- A length is read back from its eight bytes. -/
theorem readWord_writeWord_eight {n : Nat} (h : n < UInt64.size) (rest : List UInt8) :
    readWord 8 (writeWord 8 n ++ rest) = .ok (n, rest) :=
  readWord_writeWord (wordCount_eight ▸ h) rest

/-- Every 32-bit number is read back. -/
theorem readsBack_uint32 (n : UInt32) : uint32.ReadsBack n := by
  intro rest
  have hlt : n.toNat < wordCount 4 := wordCount_four ▸ n.toNat_lt_size
  simp only [uint32, readWord_writeWord hlt, bind, Except.bind, UInt32.ofNat_toNat]
  rfl

/-- Every 64-bit integer is read back, negative ones too. -/
theorem readsBack_int64 (n : Int64) : int64.ReadsBack n := by
  intro rest
  have hlt : n.toUInt64.toNat < UInt64.size := n.toUInt64.toNat_lt_size
  simp only [int64, readWord_writeWord_eight hlt, bind, Except.bind, UInt64.ofNat_toNat]
  rfl

/-! ### Strings -/

/-- A string whose length in bytes fits into a word is read back. -/
theorem readsBack_string {s : String} (h : (Utf8.encode s).length < UInt64.size) :
    string.ReadsBack s := by
  intro rest
  have hlength : (Utf8.encode s).length ≤ (Utf8.encode s ++ rest).length := by
    rw [List.length_append]
    exact Nat.le_add_right _ _
  simp only [string, List.append_assoc, readWord_writeWord_eight h, bind, Except.bind,
    if_pos hlength, List.take_left', List.drop_left', Utf8.decode_encode]
  rfl

/-! ### Composite values -/

section composite

variable {c : Codec α} {d : Codec β}

/-- An option is read back if its value is. -/
theorem readsBack_option {a? : Option α} (h : ∀ a, a? = some a → c.ReadsBack a) :
    c.option.ReadsBack a? := by
  intro rest
  cases a? with
  | none => rfl
  | some a =>
      have ha := h a rfl rest
      simp [option, ha, bind, Except.bind, pure, Except.pure]

/-- A pair is read back if both components are. -/
theorem readsBack_pair {p : α × β} (h : c.ReadsBack p.1) (h' : d.ReadsBack p.2) :
    (c.pair d).ReadsBack p := by
  intro rest
  simp only [pair, List.append_assoc, h _, h' _, bind, Except.bind]
  rfl

/-- Elements that are written one behind the other are read back one by one. -/
theorem readMany_flatMap {as : List α} (h : ∀ a ∈ as, c.ReadsBack a) (rest : List UInt8) :
    c.readMany as.length (as.flatMap c.write ++ rest) = .ok (as, rest) := by
  induction as with
  | nil => rfl
  | cons a as ih =>
      have ha := h a List.mem_cons_self
      have has := ih fun b hb => h b (List.mem_cons_of_mem _ hb)
      simp only [List.length_cons, List.flatMap_cons, List.append_assoc, readMany, ha _, has, bind,
        Except.bind]
      rfl

/-- A list whose length fits into a word is read back when its elements are. -/
theorem readsBack_list {as : List α} (hlength : as.length < UInt64.size)
    (h : ∀ a ∈ as, c.ReadsBack a) : c.list.ReadsBack as := by
  intro rest
  simp only [list, List.append_assoc, readWord_writeWord_eight hlength, bind, Except.bind,
    readMany_flatMap h]

end composite

/-! ### Canonical tuples -/

/-- The parts of a canonical tuple are read back and its lists are short enough to be counted. -/
structure Encodable (c : Codec α) (x : CanonicalTuple α) : Prop where
  tag : ∀ name, x.tag = some name → string.ReadsBack name
  positional_length : x.positional.length < UInt64.size
  positional : ∀ a ∈ x.positional, c.ReadsBack a
  named_length : x.named.length < UInt64.size
  named : ∀ m ∈ x.named, string.ReadsBack m.1 ∧ c.ReadsBack m.2

variable {c : Codec α} {x : CanonicalTuple α}

/-- A form that can be encoded is read back. -/
theorem Encodable.readsBack (h : c.Encodable x) : c.canonical.ReadsBack x := by
  intro rest
  have htag := readsBack_option h.tag
  have hcount := readsBack_uint32 x.positionalCount
  have hpositional := readsBack_list h.positional_length h.positional
  have hentry : ∀ m ∈ x.named, (string.pair c).ReadsBack m :=
    fun m hm => readsBack_pair (h.named m hm).1 (h.named m hm).2
  have hnamed := readsBack_list h.named_length hentry
  simp only [canonical, List.append_assoc, htag _, hcount _, hpositional _, hnamed _, bind,
    Except.bind]
  rfl

/-- Decoding the bytes of a canonical tuple gives that tuple. -/
theorem Encodable.decode_encode (h : c.Encodable x) : c.decode (c.encode x) = .ok x := by
  have hread := h.readsBack []
  rw [List.append_nil] at hread
  unfold decode encode
  rw [hread]

end Codec

end TaggedTuple
