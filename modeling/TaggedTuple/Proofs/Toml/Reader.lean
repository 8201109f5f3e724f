import TaggedTuple.Proofs.Text.Separated
import TaggedTuple.Proofs.Toml.Quoted
import TaggedTuple.Toml.Document

/-!
# Readers on written text

What a reader takes off the front of a text depends on what follows, since most readers go on for as
long as they can. So each statement about a reader on some text says what may follow that text:
behind a bare key no character that could stand in it (`key_bare`), behind a string no further quote
(`value_quote`), behind an element of an array a comma or the end (`element_quote`). A reader that
is repeated takes one text after the other when each of them may follow the one before
(`many_flatMap`).

A text that is made of whole lines (`Written`) can be put together from single lines, and as a
document it says what these lines say (`Written.lines_eq`).
-/

namespace TaggedTuple.Toml

namespace Reader

variable {α β : Type} {s rest : List Char}

/-! ### Readers put together -/

section combinators

variable {r q : Reader α} {a : α}

/-- A reader that succeeds hands its result and the rest of the text on. -/
theorem bind_eq {f : α → Reader β} (h : r s = some (a, rest)) : (r >>= f) s = f a rest := by
  show (r s).bind _ = _
  rw [h]
  rfl

/-- A reader that fails ends what follows it. -/
theorem bind_eq_none {f : α → Reader β} (h : r s = none) : (r >>= f) s = none := by
  show (r s).bind _ = _
  rw [h]
  rfl

/-- A function of a result leaves the rest of the text alone. -/
theorem map_eq {f : α → β} (h : r s = some (a, rest)) : (f <$> r) s = some (f a, rest) := by
  show (r s).bind _ = _
  rw [h]
  rfl

/-- A first reader that succeeds is not followed by the second one. -/
theorem orElse_eq (h : r s = some (a, rest)) : orElse r q s = some (a, rest) := by
  rw [orElse, h]

/-- A first reader that fails leaves the text to the second one. -/
theorem orElse_eq_second (h : r s = none) : orElse r q s = q s := by
  rw [orElse, h]

/-- An optional reading takes what there is. -/
theorem optional_eq (h : r s = some (a, rest)) : optional r s = some (some a, rest) := by
  rw [optional, h]

/-- An optional reading takes nothing where its reader fails. -/
theorem optional_eq_none (h : r s = none) : optional r s = some (none, s) := by
  rw [optional, h]

/-- A reader that is repeated takes one text after the other, as long as each may be followed by the
next one, and stops where it fails. -/
theorem manyUpTo_flatMap {text : β → List Char} {result : β → α} {P : List Char → Prop}
    (hstop : P rest) (hnone : r rest = none) {bs : List β}
    (hnext : ∀ b ∈ bs, ∀ more, P (text b ++ more)) (htext : ∀ b ∈ bs, text b ≠ [])
    (hread : ∀ b ∈ bs, ∀ more, P more → r (text b ++ more) = some (result b, more)) {fuel : Nat}
    (hfuel : bs.length ≤ fuel) :
    manyUpTo r fuel (bs.flatMap text ++ rest) = (bs.map result, rest) := by
  induction bs generalizing fuel with
  | nil =>
      cases fuel with
      | zero => rfl
      | succ fuel =>
          rw [List.flatMap_nil, List.nil_append, manyUpTo, hnone]
          rfl
  | cons b bs ih =>
      obtain ⟨hnext_b, hnext⟩ := List.forall_mem_cons.mp hnext
      obtain ⟨htext_b, htext⟩ := List.forall_mem_cons.mp htext
      obtain ⟨hread_b, hread⟩ := List.forall_mem_cons.mp hread
      have hmore : P (bs.flatMap text ++ rest) := by
        cases bs with
        | nil => exact hstop
        | cons b' bs =>
            rw [List.flatMap_cons, List.append_assoc]
            exact hnext b' List.mem_cons_self _
      have hlt : (bs.flatMap text ++ rest).length
          < (text b ++ (bs.flatMap text ++ rest)).length := by
        have hpos := List.length_pos_iff.mpr htext_b
        have hlength : (text b ++ (bs.flatMap text ++ rest)).length
            = (text b).length + (bs.flatMap text ++ rest).length := List.length_append
        omega
      cases fuel with
      | zero => exact absurd hfuel (Nat.not_succ_le_zero _)
      | succ fuel =>
          have htail := ih hnext htext hread (Nat.le_of_succ_le_succ hfuel)
          rw [List.flatMap_cons, List.append_assoc, manyUpTo, hread_b _ hmore]
          dsimp only
          rw [if_pos hlt, htail]
          rfl

/-- There are no more pieces of text than characters if no piece is empty. -/
theorem length_le_length_flatMap {γ : Type} {text : β → List γ} {bs : List β}
    (h : ∀ b ∈ bs, text b ≠ []) : bs.length ≤ (bs.flatMap text).length := by
  induction bs with
  | nil => exact Nat.le_refl _
  | cons b bs ih =>
      obtain ⟨hb, hbs⟩ := List.forall_mem_cons.mp h
      have hpos := List.length_pos_iff.mpr hb
      have htail := ih hbs
      rw [List.flatMap_cons, List.length_append, List.length_cons]
      omega

/-- A repetition reads pieces of text one by one, up to a rest at which its reader fails. -/
theorem many_flatMap {text : β → List Char} {result : β → α} {P : List Char → Prop}
    (hstop : P rest) (hnone : r rest = none) {bs : List β}
    (hnext : ∀ b ∈ bs, ∀ more, P (text b ++ more)) (htext : ∀ b ∈ bs, text b ≠ [])
    (hread : ∀ b ∈ bs, ∀ more, P more → r (text b ++ more) = some (result b, more)) :
    many r (bs.flatMap text ++ rest) = some (bs.map result, rest) := by
  have hfuel : bs.length ≤ (bs.flatMap text ++ rest).length := by
    rw [List.length_append]
    exact Nat.le_add_right_of_le (length_le_length_flatMap htext)
  rw [many, manyUpTo_flatMap hstop hnone hnext htext hread hfuel]

/-- A reader that fails is not repeated. -/
theorem many_eq_nil (h : r s = none) : many r s = some ([], s) := by
  rw [many]
  cases s.length with
  | zero => rfl
  | succ fuel => rw [manyUpTo, h]

end combinators

/-- A character is not read where another one stands. -/
theorem char_eq_none {c : Char} (h : s.head? ≠ some c) : char c s = none := by
  cases s with
  | nil => rfl
  | cons d s => rw [char, if_neg fun heq => h (congrArg some heq)]

/-- Characters are taken up to the first one that fails the test. -/
theorem takeWhile_append {p : Char → Bool} {w : List Char} (hw : ∀ c ∈ w, p c = true)
    (hrest : ∀ c ∈ rest.head?, p c = false) : takeWhile p (w ++ rest) = some (w, rest) := by
  have hstop : rest.takeWhile p = [] ∧ rest.dropWhile p = rest := by
    cases rest with
    | nil => exact ⟨rfl, rfl⟩
    | cons c rest =>
        have hc := Bool.not_eq_true _ ▸ hrest c rfl
        exact ⟨List.takeWhile_cons_of_neg hc, List.dropWhile_cons_of_neg hc⟩
  rw [takeWhile, List.takeWhile_append_of_pos hw, List.dropWhile_append_of_pos hw, hstop.1,
    hstop.2, List.append_nil]

/-! ### Blanks and line ends -/

/-- The text does not begin with a blank. -/
def NoBlank (s : List Char) : Prop := ∀ c ∈ s.head?, isBlank c = false

/-- A text starts without blanks if its first character is none. -/
theorem noBlank_cons_iff {c : Char} : NoBlank (c :: s) ↔ isBlank c = false := by
  simp [NoBlank]

/-- Where no blank stands, none is skipped. -/
theorem blanks_eq (h : NoBlank s) : blanks s = some ((), s) := by
  rw [blanks]
  cases s with
  | nil => rfl
  | cons c s =>
      rw [List.dropWhile_cons_of_neg (Bool.not_eq_true _ ▸ noBlank_cons_iff.mp h)]

/-- A line feed ends a line. -/
theorem lineEnd_lineFeed (rest : List Char) : lineEnd ('\n' :: rest) = some ((), rest) := rfl

/-! ### Keys -/

/-- A name that can stand as a key without quotes. -/
structure BareKey (k : List Char) : Prop where
  nonempty : k ≠ []
  bare : ∀ c ∈ k, isBareKey c = true

instance decidableBareKey (k : List Char) : Decidable (BareKey k) :=
  decidable_of_iff (k ≠ [] ∧ k.all isBareKey = true)
    ⟨fun h => ⟨h.1, List.all_eq_true.mp h.2⟩, fun h => ⟨h.nonempty, List.all_eq_true.mpr h.bare⟩⟩

/-- A character of a bare key differs from one that is none. -/
theorem ne_of_isBareKey {c d : Char} (h : isBareKey c = true) (hd : isBareKey d = false) :
    c ≠ d := by
  rintro rfl
  exact absurd h (Bool.not_eq_true _ ▸ hd)

/-- A character of a bare key is no blank. -/
theorem isBlank_of_isBareKey {c : Char} (h : isBareKey c = true) : isBlank c = false := by
  simp [isBlank, ne_of_isBareKey h (d := ' ') rfl, ne_of_isBareKey h (d := '\t') rfl]

/-- A bare key begins with a character of its own. -/
theorem BareKey.exists_cons {k : List Char} (hk : BareKey k) :
    ∃ c more, k = c :: more ∧ isBareKey c = true := by
  obtain ⟨c, more, rfl⟩ := List.exists_cons_of_ne_nil hk.nonempty
  exact ⟨c, more, rfl, hk.bare c List.mem_cons_self⟩

/-- A text that starts with a bare key starts without blanks. -/
theorem noBlank_of_bareKey {k : List Char} (hk : BareKey k) : NoBlank (k ++ rest) := by
  obtain ⟨c, more, rfl, hc⟩ := hk.exists_cons
  exact noBlank_cons_iff.mpr (isBlank_of_isBareKey hc)

/-- A string on one line starts with a quote. -/
theorem shortString_eq_none {c : Char} (hdouble : c ≠ '"') (hsingle : c ≠ '\'') :
    shortString (c :: s) = none := by
  rw [shortString]
  · exact fun _ heq => hdouble (List.cons.inj heq).1
  · exact fun _ heq => hsingle (List.cons.inj heq).1

/-- A bare key reaches up to the first character that cannot stand in it. -/
theorem keyPart_bare {k : List Char} (hk : BareKey k)
    (hrest : ∀ c ∈ rest.head?, isBareKey c = false) :
    keyPart (k ++ rest) = some (String.ofList k, rest.dropWhile isBlank) := by
  have hpart : orElse shortString (takeWhile1 isBareKey) (k ++ rest) = some (k, rest) := by
    obtain ⟨hnonempty, hbare⟩ := hk
    cases k with
    | nil => exact absurd rfl hnonempty
    | cons c k =>
        obtain ⟨hc, hk⟩ := List.forall_mem_cons.mp hbare
        have hfirst : satisfy isBareKey (c :: (k ++ rest)) = some (c, k ++ rest) := by
          rw [satisfy, if_pos hc]
        have hmore := takeWhile_append hk hrest
        rw [List.cons_append, orElse_eq_second (shortString_eq_none
          (ne_of_isBareKey hc rfl) (ne_of_isBareKey hc rfl)), takeWhile1, bind_eq hfirst,
          bind_eq hmore]
        rfl
  rw [keyPart, bind_eq (blanks_eq (noBlank_of_bareKey hk)), bind_eq hpart]
  rfl

/-- A key of one part, in front of a character that ends it. -/
theorem key_bare {k : List Char} (hk : BareKey k) (hrest : ∀ c ∈ rest.head?, isBareKey c = false)
    (hdot : (rest.dropWhile isBlank).head? ≠ some '.') :
    key (k ++ rest) = some (⟨[], String.ofList k⟩, rest.dropWhile isBlank) := by
  rw [key, bind_eq (keyPart_bare hk hrest),
    bind_eq (many_eq_nil (bind_eq_none (char_eq_none hdot)))]
  rfl

/-! ### Values -/

/-- A quoted string starts with a quote of either kind. -/
theorem exists_quote_eq (s : List Char) :
    ∃ more, quote s = '"' :: more ∨ quote s = '\'' :: more := by
  unfold quote
  cases QuoteForm.of s with
  | basic => exact ⟨_, .inl rfl⟩
  | longBasic => exact ⟨_, .inl rfl⟩
  | literal => exact ⟨_, .inr rfl⟩
  | longLiteral => exact ⟨_, .inr rfl⟩

/-- A string is a value at any depth. -/
theorem value_quote (nesting : Nat) (s : List Char) (hdouble : NoQuote '"' rest)
    (hsingle : NoQuote '\'' rest) :
    value nesting (quote s ++ rest) = some (.string (String.ofList s), rest) := by
  have hscalar : scalar (quote s ++ rest) = some (.string (String.ofList s), rest) :=
    orElse_eq (bind_eq (string_quote s hdouble hsingle))
  cases nesting with
  | zero => exact hscalar
  | succ nesting =>
      obtain ⟨more, h | h⟩ := exists_quote_eq s
      · rw [h] at hscalar ⊢
        exact hscalar
      · rw [h] at hscalar ⊢
        exact hscalar

/-- No gap stands in front of a quoted string. -/
theorem gap_quote (s more : List Char) : gap (quote s ++ more) = some ((), quote s ++ more) := by
  obtain ⟨tail, h | h⟩ := exists_quote_eq s
  · rw [h]
    rfl
  · rw [h]
    rfl

/-- A bracket that closes an array is no value. -/
theorem value_close (nesting : Nat) : value nesting (']' :: rest) = none := by
  cases nesting with
  | zero => rfl
  | succ nesting => rfl

/-- An array is an opening bracket and its elements. -/
theorem value_array {nesting : Nat} {ds : List Datum}
    (h : elements (value nesting) s = some (ds, rest)) :
    value (nesting + 1) ('[' :: s) = some (.array ds, rest) := by
  rw [value]
  exact map_eq h

/-- An array is its first element, the others behind commas, and its end. -/
theorem elements_eq {r : Reader Datum} {s₁ s₂ s₃ : List Char} {d : Datum} {ds : List Datum}
    {comma : Option Unit} (hfirst : element r s = some (d, s₁))
    (hmore : many (do char ','; element r) s₁ = some (ds, s₂))
    (hcomma : optional (char ',') s₂ = some (comma, s₃))
    (hclose : gap s₃ = some ((), ']' :: rest)) : elements r s = some (d :: ds, rest) := by
  rw [elements, bind_eq (optional_eq hfirst)]
  dsimp only
  rw [bind_eq hmore, bind_eq hcomma, bind_eq hclose]
  rfl

/-- An array may close without elements. -/
theorem elements_nil (nesting : Nat) :
    elements (value nesting) (']' :: rest) = some ([], rest) := by
  have hnone : element (value nesting) (']' :: rest) = none := by
    rw [element, bind_eq (a := ()) (rfl : gap (']' :: rest) = some ((), ']' :: rest)),
      bind_eq_none (value_close nesting)]
  rw [elements, bind_eq (optional_eq_none hnone)]
  rfl

/-- No quote follows a text that ends at a comma or at the end of an array. -/
theorem noQuote_of_endsAt {c : Char} (hc : c ∉ [',', ']']) (h : EndsAt [',', ']'] rest) :
    NoQuote c rest := by
  rintro more rfl
  exact hc (endsAt_cons_iff.mp h)

/-- No gap stands in front of a comma or a closing bracket. -/
theorem gap_of_endsAt (h : EndsAt [',', ']'] rest) : gap rest = some ((), rest) := by
  cases rest with
  | nil => rfl
  | cons c rest =>
      have hc := endsAt_cons_iff.mp h
      simp only [List.mem_cons, List.not_mem_nil, or_false] at hc
      obtain rfl | rfl := hc
      · rfl
      · rfl

/-- A string as an element of an array, behind a gap. -/
theorem element_quote (nesting : Nat) (pre : List Char)
    (hpre : ∀ more, gap (pre ++ more) = gap more) (s : List Char) (hrest : EndsAt [',', ']'] rest) :
    element (value nesting) (pre ++ (quote s ++ rest))
      = some (.string (String.ofList s), rest) := by
  have hvalue := value_quote nesting s (noQuote_of_endsAt (by decide) hrest)
    (noQuote_of_endsAt (by decide) hrest)
  rw [element, bind_eq ((hpre _).trans (gap_quote s rest)), bind_eq hvalue,
    bind_eq (gap_of_endsAt hrest)]
  rfl

/-- A text that stands for a value at the end of a line. -/
structure ValueText (v : List Char) (d : Datum) : Prop where
  noBlank : ∀ rest, NoBlank (v ++ '\n' :: rest)
  value_append : ∀ rest, value maxNesting (v ++ '\n' :: rest) = some (d, '\n' :: rest)

/-- A quoted string is the text of a value. -/
theorem valueText_quote (s : List Char) : ValueText (quote s) (.string (String.ofList s)) where
  noBlank rest := by
    obtain ⟨more, h | h⟩ := exists_quote_eq s
    · rw [h]
      exact noBlank_cons_iff.mpr rfl
    · rw [h]
      exact noBlank_cons_iff.mpr rfl
  value_append rest :=
    value_quote maxNesting s (fun _ heq => absurd (List.cons.inj heq).1 (by decide))
      fun _ heq => absurd (List.cons.inj heq).1 (by decide)

/-- A truth value is the text of a value. -/
theorem valueText_boolean (b : Bool) : ValueText (toString b).toList (.boolean b) := by
  cases b with
  | false => exact ⟨fun _ => noBlank_cons_iff.mpr rfl, fun _ => rfl⟩
  | true => exact ⟨fun _ => noBlank_cons_iff.mpr rfl, fun _ => rfl⟩

/-! ### Lines -/

/-- A line that begins with anything but a blank, a comment or its end is not empty. -/
theorem emptyLine_eq_none {c : Char} (hblank : isBlank c = false) (hcomment : c ≠ '#')
    (hfeed : c ≠ '\n') (hreturn : c ≠ '\x0d') : emptyLine (c :: s) = none := by
  have hnone : comment (c :: s) = none :=
    bind_eq_none (char_eq_none fun heq => hcomment (Option.some.inj heq))
  rw [emptyLine, bind_eq (blanks_eq (noBlank_cons_iff.mpr hblank)),
    bind_eq (optional_eq_none hnone), lineBreak]
  · exact fun _ heq => hfeed (List.cons.inj heq).1
  · exact fun _ heq => hreturn (List.cons.inj heq).1

/-- A line that is not empty holds a statement. -/
theorem line_eq_of_statement {c : Char} {l : Line} (hblank : isBlank c = false) (hcomment : c ≠ '#')
    (hfeed : c ≠ '\n') (hreturn : c ≠ '\x0d') (h : statement (c :: s) = some (l, rest)) :
    line (c :: s) = some (some l, rest) := by
  rw [line, orElse_eq_second (bind_eq_none (emptyLine_eq_none hblank hcomment hfeed hreturn)),
    bind_eq (blanks_eq (noBlank_cons_iff.mpr hblank))]
  exact map_eq h

/-- A bare key with a value. -/
theorem assignment_bare {k v : List Char} {d : Datum} {r : Reader Datum} (hk : BareKey k)
    (hblank : NoBlank (v ++ rest)) (hrest : NoBlank rest)
    (hvalue : r (v ++ rest) = some (d, rest)) :
    assignment r (k ++ ' ' :: '=' :: ' ' :: (v ++ rest))
      = some ((⟨[], String.ofList k⟩, d), rest) := by
  have hkey : key (k ++ ' ' :: '=' :: ' ' :: (v ++ rest))
      = some (⟨[], String.ofList k⟩, '=' :: ' ' :: (v ++ rest)) :=
    key_bare hk (by rintro c ⟨⟩; rfl) fun heq => absurd (Option.some.inj heq) (by decide)
  have hspace : blanks (' ' :: (v ++ rest)) = some ((), v ++ rest) := blanks_eq hblank
  rw [assignment, bind_eq hkey, bind_eq (a := ()) rfl, bind_eq hspace, bind_eq hvalue,
    bind_eq (blanks_eq hrest)]
  rfl

/-- A line that gives a bare key a value. -/
theorem line_assignment {k v : List Char} {d : Datum} (hk : BareKey k) (hv : ValueText v d) :
    line (k ++ ' ' :: '=' :: ' ' :: (v ++ '\n' :: rest))
      = some (some (.assign ⟨[], String.ofList k⟩ d), rest) := by
  have hassign := assignment_bare hk (hv.noBlank rest) (noBlank_cons_iff.mpr rfl)
    (hv.value_append rest)
  obtain ⟨c, k, rfl, hc⟩ := hk.exists_cons
  refine line_eq_of_statement (isBlank_of_isBareKey hc) (ne_of_isBareKey hc rfl)
    (ne_of_isBareKey hc rfl) (ne_of_isBareKey hc rfl) ?_
  rw [statement, bind_eq, bind_eq (lineEnd_lineFeed rest)]
  · rfl
  · rw [orElse_eq_second]
    · exact bind_eq hassign
    · exact bind_eq_none (char_eq_none fun heq =>
        ne_of_isBareKey hc (d := '[') rfl (Option.some.inj heq))

/-- A header of one part. -/
theorem line_header {k : List Char} (hk : BareKey k) :
    line ('[' :: (k ++ ']' :: '\n' :: rest))
      = some (some (.header ⟨[], String.ofList k⟩), rest) := by
  have hkey : key (k ++ ']' :: '\n' :: rest) = some (⟨[], String.ofList k⟩, ']' :: '\n' :: rest) :=
    key_bare hk (by rintro c ⟨⟩; rfl) fun heq => absurd (Option.some.inj heq) (by decide)
  have hpeek : (k ++ ']' :: '\n' :: rest).head? ≠ some '[' := by
    obtain ⟨c, k, rfl, hc⟩ := hk.exists_cons
    exact fun heq => ne_of_isBareKey hc (d := '[') rfl (Option.some.inj heq)
  refine line_eq_of_statement rfl (by decide) (by decide) (by decide) ?_
  rw [statement, bind_eq, bind_eq (lineEnd_lineFeed rest)]
  · rfl
  · apply orElse_eq
    rw [header, bind_eq (a := ()) rfl, bind_eq (a := (k ++ ']' :: '\n' :: rest).head?) rfl,
      if_neg hpeek, bind_eq hkey, bind_eq (a := ()) rfl]
    rfl

/-- A line may be empty. -/
theorem line_empty : line ('\n' :: rest) = some (none, rest) := rfl

/-- No line stands at the end of the text. -/
theorem line_nil : line [] = none := rfl

/-! ### Texts of whole lines -/

/-- A text is made of whole lines that say what is listed, whatever text follows. -/
def Written (s : List Char) (ls : List Line) : Prop :=
  ∃ bs : List (List Char × Option Line), s = bs.flatMap Prod.fst ∧ ls = bs.filterMap Prod.snd ∧
    ∀ b ∈ bs, b.1 ≠ [] ∧ ∀ more, line (b.1 ++ more) = some (b.2, more)

/-- No text holds no lines. -/
theorem written_nil : Written [] [] := ⟨[], rfl, rfl, nofun⟩

/-- A piece of text that is read as one line holds that line. -/
theorem written_line {l : Option Line} (hs : s ≠ [])
    (h : ∀ more, line (s ++ more) = some (l, more)) : Written s l.toList := by
  refine ⟨[(s, l)], by rw [List.flatMap_singleton], ?_, List.forall_mem_singleton.mpr ⟨hs, h⟩⟩
  cases l with
  | none => rfl
  | some l => rfl

/-- Two texts one behind the other hold the lines of both. -/
theorem Written.append {s₁ s₂ : List Char} {ls₁ ls₂ : List Line} (h₁ : Written s₁ ls₁)
    (h₂ : Written s₂ ls₂) : Written (s₁ ++ s₂) (ls₁ ++ ls₂) := by
  obtain ⟨bs₁, rfl, rfl, hbs₁⟩ := h₁
  obtain ⟨bs₂, rfl, rfl, hbs₂⟩ := h₂
  exact ⟨bs₁ ++ bs₂, List.flatMap_append.symm, List.filterMap_append.symm,
    List.forall_mem_append.mpr ⟨hbs₁, hbs₂⟩⟩

/-- An empty line holds nothing. -/
theorem written_empty : Written ['\n'] [] :=
  written_line (l := none) (List.cons_ne_nil _ _) fun _ => line_empty

/-- The header of a section holds the name of the section. -/
theorem written_header {k : List Char} (hk : BareKey k) :
    Written ('[' :: (k ++ [']', '\n'])) [.header ⟨[], String.ofList k⟩] := by
  refine written_line (l := some _) (List.cons_ne_nil _ _) fun more => ?_
  rw [List.cons_append, List.append_assoc]
  exact line_header hk

/-- An assignment holds its key and its value. -/
theorem written_assignment {k v : List Char} {d : Datum} (hk : BareKey k) (hv : ValueText v d) :
    Written (k ++ " = ".toList ++ v ++ ['\n']) [.assign ⟨[], String.ofList k⟩ d] := by
  refine written_line (l := some _) (List.append_ne_nil_of_right_ne_nil _ (List.cons_ne_nil _ _))
    fun more => ?_
  rw [List.append_assoc, List.append_assoc, List.append_assoc]
  exact line_assignment hk hv

/-- A document of whole lines says what its lines say. -/
theorem Written.lines_eq {ls : List Line} (h : Written s ls) (hmark : s.head? ≠ some '\ufeff') :
    lines s = some (ls, []) := by
  obtain ⟨bs, rfl, rfl, hbs⟩ := h
  have hmany := many_flatMap (r := line) (P := fun _ => True) trivial line_nil
    (fun _ _ _ => trivial) (fun b hb => (hbs b hb).1) fun b hb more _ => (hbs b hb).2 more
  rw [List.append_nil] at hmany
  rw [lines, bind_eq (optional_eq_none (char_eq_none hmark)), bind_eq hmany]
  show some ((bs.map Prod.snd).filterMap id, []) = _
  rw [List.filterMap_map]
  rfl

end Reader

end TaggedTuple.Toml
