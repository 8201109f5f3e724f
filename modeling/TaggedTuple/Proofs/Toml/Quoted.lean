import Mathlib.Tactic.SplitIfs
import TaggedTuple.Toml.Quoted

/-!
# Written strings are read back

Whichever form a string is written in, the reader takes just this text and finds the string
(`Reader.string_quote`). The text behind it must not begin with a quote, which would be taken for a
part of the string.

Both forms in double quotes understand escapes (`ReadsEscapes`). In the forms of three quotes the
runs of quotes matter: three in a row end the string, and up to two in front of them belong to it.
A written string has no three in a row before its end: in double quotes the third one is escaped
(`longBasicBody_longBasicText`), and the form in single quotes is not chosen for a string with such
a run (`longLiteralBody_append`).
-/

namespace TaggedTuple.Toml

variable {c d : Char} {s rest : List Char}

/-! ### Escapes -/

/-- A character is that of its own number. -/
theorem scalarChar?_toNat (c : Char) : scalarChar? c.toNat = some c := by
  have hvalid : c.toNat.isValidChar := c.valid
  rw [scalarChar?, dif_pos hvalid]
  rfl

/-- A hexadecimal digit is read back as its value. -/
theorem hexValue?_hexDigit : ∀ n < 16, hexValue? (hexDigit n) = some n := by
  decide

/-- The number of a character below 256 is written with two digits that count. -/
theorem hexNumber?_hexDigits {n : Nat} (h : n < 256) :
    hexNumber? ['0', '0', hexDigit (n / 16), hexDigit (n % 16)] = some n := by
  have hhigh := hexValue?_hexDigit (n / 16) (by omega)
  have hlow := hexValue?_hexDigit (n % 16) (by omega)
  have hzero : hexValue? '0' = some 0 := rfl
  simp only [hexNumber?, List.foldlM_cons, List.foldlM_nil, hzero, hhigh, hlow, Option.map_some,
    Option.bind_eq_bind, Option.bind_some, Option.pure_def, Option.some.injEq]
  omega

/-- Only the first characters are not plain, so two hexadecimal digits tell which one it is. -/
theorem toNat_lt_of_not_isPlain (h : isPlain c = false) : c.toNat < 256 := by
  simp only [isPlain, Bool.or_eq_false_iff, Bool.and_eq_false_iff, decide_eq_false_iff_not,
    bne_eq_false_iff_eq] at h
  rcases h with ⟨-, h | rfl⟩
  · have hlt : c.toNat < 32 := Nat.lt_of_not_le h
    omega
  · decide

/-- A reader of the characters between quotes understands escapes. -/
structure ReadsEscapes (body : List Char → Option (List Char × List Char)) : Prop where
  letter : ∀ {l e rest}, escape? l = some e → body ('\\' :: l :: rest) = prepend e (body rest)
  code : ∀ {a b c d n e rest}, hexNumber? [a, b, c, d] = some n → scalarChar? n = some e →
    body ('\\' :: 'u' :: a :: b :: c :: d :: rest) = prepend e (body rest)
  plain : ∀ {c rest}, isPlain c = true → c ≠ '"' → c ≠ '\\' →
    body (c :: rest) = prepend c (body rest)

/-- A body that reads escapes reads any character that was escaped, a quote apart. -/
theorem ReadsEscapes.escape {body : List Char → Option (List Char × List Char)}
    (h : ReadsEscapes body) (hquote : c ≠ '"') :
    body (escape c ++ rest) = prepend c (body rest) := by
  unfold Toml.escape
  split_ifs with h₁ h₂ h₃ h₄ h₅ hplain
  · subst h₁
    exact h.letter rfl
  · subst h₂
    exact h.letter rfl
  · subst h₃
    exact h.letter rfl
  · subst h₄
    exact h.letter rfl
  · subst h₅
    exact h.letter rfl
  · exact h.plain hplain hquote h₁
  · have hlt := toNat_lt_of_not_isPlain (Bool.not_eq_true _ ▸ hplain)
    exact h.code (hexNumber?_hexDigits hlt) (scalarChar?_toNat c)

/-- The letters that stand for a character behind a backslash. -/
theorem escape?_cases {l e : Char} (h : escape? l = some e) :
    l = 'b' ∨ l = 't' ∨ l = 'n' ∨ l = 'f' ∨ l = 'r' ∨ l = '"' ∨ l = '\\' := by
  unfold escape? at h
  split at h <;> simp_all

/-- The body of a basic string reads escapes. -/
theorem readsEscapes_basicBody : ReadsEscapes basicBody where
  letter {l e rest} h := by
    rw [basicBody, h]
    · rfl
    · rintro a b c d rest rfl -
      cases h
    · rintro a b c d e f g h' rest rfl -
      cases h
  code {a b c d n e rest} hn he := by
    rw [basicBody, hn]
    show (scalarChar? n).bind _ = _
    rw [he]
    rfl
  plain {c rest} hplain hquote hslash := by
    rw [basicBody]
    · simp [hplain, hslash]
    · exact hquote
    · exact fun _ _ _ _ _ h => absurd h hslash
    · exact fun _ _ _ _ _ _ _ _ _ h => absurd h hslash
    · exact fun _ _ h => absurd h hslash

/-- A letter behind a backslash is no break of the line. -/
theorem breaksLine_of_escape? {l e : Char} (h : escape? l = some e) :
    breaksLine (l :: rest) = false := by
  rcases escape?_cases h with rfl | rfl | rfl | rfl | rfl | rfl | rfl <;> rfl

/-- A character stands for itself unless it begins an escape or a run of three quotes. -/
theorem longBasicBody_cons (hc : isPlain c = true ∨ c = '\n') (hslash : c ≠ '\\')
    (h : c = '"' → ∀ more, rest ≠ '"' :: '"' :: more) :
    longBasicBody false (c :: rest) = prepend c (longBasicBody false rest) := by
  have hreturn : c ≠ '\x0d' := by
    rintro rfl
    exact absurd hc (by decide)
  rw [longBasicBody]
  · have hself : (c == '\n' || (isPlain c && c != '\\')) = true := by
      rcases hc with hplain | rfl
      · simp [hplain, hslash]
      · rfl
    rw [Bool.false_and, if_neg Bool.false_ne_true, if_pos hself]
  · exact fun _ hquote heq => h hquote _ heq
  · exact fun _ hquote heq => h hquote _ heq
  · exact fun _ hquote heq => h hquote _ heq
  · exact fun _ _ _ _ _ heq => absurd heq hslash
  · exact fun _ _ _ _ _ _ _ _ _ heq => absurd heq hslash
  · exact fun _ _ heq => absurd heq hslash
  · exact fun _ heq => absurd heq hreturn

/-- The body of a multi-line basic string reads escapes. -/
theorem readsEscapes_longBasicBody : ReadsEscapes (longBasicBody false) where
  letter {l e rest} h := by
    rw [longBasicBody, breaksLine_of_escape? h, h]
    · rfl
    · rintro a b c d rest rfl -
      cases h
    · rintro a b c d e f g h' rest rfl -
      cases h
  code {a b c d n e rest} hn he := by
    rw [longBasicBody, hn]
    show (scalarChar? n).bind _ = _
    rw [he]
    rfl
  plain hplain hquote hslash :=
    longBasicBody_cons (.inl hplain) hslash fun heq => absurd heq hquote

/-! ### Strings of one line -/

/-- The text of a basic string is read back up to its closing quote. -/
theorem basicBody_basicText (s rest : List Char) :
    basicBody (basicText s ++ '"' :: rest) = some (s, rest) := by
  induction s with
  | nil => rfl
  | cons c s ih =>
      rw [basicText]
      split_ifs with hquote hbreak
      · subst hquote
        exact (readsEscapes_basicBody.letter rfl).trans (congrArg (prepend '"') ih)
      · subst hbreak
        exact (readsEscapes_basicBody.letter rfl).trans (congrArg (prepend '\n') ih)
      · rw [List.append_assoc, readsEscapes_basicBody.escape hquote, ih]
        rfl

/-- Plain characters without a single quote are read as they stand in a literal string. -/
theorem literalBody_append (hplain : ∀ c ∈ s, isPlain c = true) (hquote : '\'' ∉ s) :
    literalBody (s ++ '\'' :: rest) = some (s, rest) := by
  induction s with
  | nil => rfl
  | cons c s ih =>
      obtain ⟨hc, hplain⟩ := List.forall_mem_cons.mp hplain
      have htail := ih hplain (List.not_mem_of_not_mem_cons hquote)
      rw [List.cons_append, literalBody, if_pos hc, htail]
      · rfl
      · exact fun h => List.ne_of_not_mem_cons hquote h.symm

/-- An escaped character starts with neither a quote nor a line break. -/
theorem exists_escape_eq (hquote : c ≠ '"') (hbreak : c ≠ '\n') :
    ∃ d more, escape c = d :: more ∧ d ≠ '"' ∧ d ≠ '\n' ∧ d ≠ '\x0d' := by
  unfold escape
  split_ifs with h₁ h₂ h₃ h₄ h₅ hplain
  · exact ⟨_, _, rfl, by decide⟩
  · exact ⟨_, _, rfl, by decide⟩
  · exact ⟨_, _, rfl, by decide⟩
  · exact ⟨_, _, rfl, by decide⟩
  · exact ⟨_, _, rfl, by decide⟩
  · exact ⟨_, _, rfl, hquote, hbreak, h₅⟩
  · exact ⟨_, _, rfl, by decide⟩

/-- The rest of the text does not begin with a quote. -/
def NoQuote (q : Char) (rest : List Char) : Prop := ∀ more, rest ≠ q :: more

/-- A text with an escaped character in front does not start with a quote. -/
theorem noQuote_basicText (more : List Char) : NoQuote '"' (basicText (c :: s) ++ more) := by
  intro tail heq
  rw [basicText] at heq
  split_ifs at heq with hquote hbreak
  · exact absurd (List.cons.inj heq).1 (by decide)
  · exact absurd (List.cons.inj heq).1 (by decide)
  · obtain ⟨d, ds, hd, hne, -⟩ := exists_escape_eq hquote hbreak
    rw [hd] at heq
    exact absurd (List.cons.inj heq).1 hne

/-! ### Strings in three double quotes -/

/-- Three quotes end a string; up to two quotes in front of them belong to it. -/
theorem longBasicBody_close (h : NoQuote '"' rest) (run : Nat) (hrun : run ≤ 2) :
    longBasicBody false (List.replicate run '"' ++ '"' :: '"' :: '"' :: rest)
      = some (List.replicate run '"', rest) := by
  obtain rfl | rfl | rfl : run = 0 ∨ run = 1 ∨ run = 2 := by omega
  · show longBasicBody false ('"' :: '"' :: '"' :: rest) = some ([], rest)
    rw [longBasicBody]
    · exact fun more heq => h _ heq
    · exact fun more heq => h _ heq
  · show longBasicBody false ('"' :: '"' :: '"' :: '"' :: rest) = some (['"'], rest)
    rw [longBasicBody]
    exact fun more heq => h _ heq
  · rfl

/-- Behind two quotes, and in front of any other character, no quote is written. -/
theorem noQuote_longBasicText {run : Nat} (h : run = 2 ∨ c ≠ '"') (more : List Char) :
    NoQuote '"' (longBasicText run (c :: s) ++ more) := by
  intro tail heq
  rw [longBasicText] at heq
  split_ifs at heq with hquote hrun hbreak
  · exact absurd (List.cons.inj heq).1 (by decide)
  · exact h.elim hrun (absurd hquote)
  · exact absurd (List.cons.inj heq).1 (by decide)
  · obtain ⟨d, ds, hd, hne, -⟩ := exists_escape_eq hquote hbreak
    rw [hd] at heq
    exact absurd (List.cons.inj heq).1 hne

/-- The text of a multi-line basic string is read back up to its three closing quotes, with one or
two quotes in front of it or none. -/
theorem longBasicBody_longBasicText (hrest : NoQuote '"' rest) {run : Nat} (hrun : run ≤ 2) :
    longBasicBody false (longBasicText run s ++ '"' :: '"' :: '"' :: rest) = some (s, rest) := by
  induction s generalizing run with
  | nil => exact longBasicBody_close hrest 0 (Nat.zero_le _)
  | cons c s ih =>
      rw [longBasicText]
      split_ifs with hquote htwo hbreak
      · subst hquote
        exact (readsEscapes_longBasicBody.letter rfl).trans
          (congrArg (prepend '"') (ih (Nat.zero_le _)))
      · subst hquote
        rw [List.cons_append]
        -- the quotes at the end of the string stand directly before the closing ones
        cases s with
        | nil => exact longBasicBody_close hrest 1 (by decide)
        | cons d s =>
            by_cases hend : run = 0 ∧ d = '"' ∧ s = []
            · obtain ⟨rfl, rfl, rfl⟩ := hend
              exact longBasicBody_close hrest 2 (Nat.le_refl _)
            · rw [longBasicBody_cons (.inl rfl) (by decide), ih (by omega)]
              · rfl
              · intro _ more heq
                by_cases hlead : run + 1 = 2 ∨ d ≠ '"'
                · exact noQuote_longBasicText hlead _ _ heq
                · obtain ⟨hone, hd⟩ := not_or.mp hlead
                  obtain rfl := Decidable.not_not.mp hd
                  obtain rfl : run = 0 := by omega
                  rw [longBasicText, if_pos rfl, if_neg hone] at heq
                  cases s with
                  | nil => exact hend ⟨rfl, rfl, rfl⟩
                  | cons e s =>
                      exact noQuote_longBasicText (.inl rfl) _ _ (List.cons.inj heq).2
      · subst hbreak
        rw [List.cons_append, longBasicBody_cons (.inr rfl) (by decide), ih (Nat.zero_le _)]
        · rfl
        · exact fun heq => absurd heq (by decide)
      · rw [List.append_assoc, readsEscapes_longBasicBody.escape hquote, ih (Nat.zero_le _)]
        rfl

/-! ### Strings in three single quotes -/

/-- Three quotes end a string; up to two quotes in front of them belong to it. -/
theorem longLiteralBody_close (h : NoQuote '\'' rest) (run : Nat) (hrun : run ≤ 2) :
    longLiteralBody (List.replicate run '\'' ++ '\'' :: '\'' :: '\'' :: rest)
      = some (List.replicate run '\'', rest) := by
  obtain rfl | rfl | rfl : run = 0 ∨ run = 1 ∨ run = 2 := by omega
  · show longLiteralBody ('\'' :: '\'' :: '\'' :: rest) = some ([], rest)
    rw [longLiteralBody]
    · exact fun more heq => h _ heq
    · exact fun more heq => h _ heq
  · show longLiteralBody ('\'' :: '\'' :: '\'' :: '\'' :: rest) = some (['\''], rest)
    rw [longLiteralBody]
    exact fun more heq => h _ heq
  · rfl

/-- A character stands for itself unless it begins a run of three quotes. -/
theorem longLiteralBody_cons (hc : isPlain c = true ∨ c = '\n')
    (h : c = '\'' → ∀ more, rest ≠ '\'' :: '\'' :: more) :
    longLiteralBody (c :: rest) = prepend c (longLiteralBody rest) := by
  have hreturn : c ≠ '\x0d' := by
    rintro rfl
    exact absurd hc (by decide)
  rw [longLiteralBody]
  · rw [if_pos]
    rw [Bool.or_eq_true, beq_iff_eq]
    exact hc.symm
  · exact fun _ hquote heq => h hquote _ heq
  · exact fun _ hquote heq => h hquote _ heq
  · exact fun _ hquote heq => h hquote _ heq
  · exact fun _ h => absurd h hreturn

/-- The longest run is no shorter than the one that is under way. -/
theorem le_longestRun (c : Char) (s : List Char) (current : Nat) :
    current ≤ longestRun c current s := by
  induction s generalizing current with
  | nil => exact Nat.le_refl _
  | cons d s ih =>
      rw [longestRun]
      split_ifs
      · exact Nat.le_of_succ_le (ih (current + 1))
      · exact Nat.le_max_left _ _

/-- A character without a run does not occur. -/
theorem not_mem_of_longestRun_eq_zero {q : Char} (h : longestRun q 0 s = 0) : q ∉ s := by
  induction s with
  | nil => exact List.not_mem_nil
  | cons d s ih =>
      rw [longestRun] at h
      split_ifs at h with hd
      · have hle := le_longestRun q s (0 + 1)
        omega
      · refine List.not_mem_cons_of_ne_of_not_mem (Ne.symm hd) (ih ?_)
        omega

/-- Plain characters and line breaks are read as they stand in a multi-line literal string, as long
as no three single quotes follow each other. -/
theorem longLiteralBody_append (hrest : NoQuote '\'' rest)
    (hplain : ∀ c ∈ s, isPlain c = true ∨ c = '\n') {run : Nat}
    (hrun : longestRun '\'' run s ≤ 2) :
    longLiteralBody (s ++ '\'' :: '\'' :: '\'' :: rest) = some (s, rest) := by
  induction s generalizing run with
  | nil => exact longLiteralBody_close hrest 0 (Nat.zero_le _)
  | cons c s ih =>
      obtain ⟨hc, htail⟩ := List.forall_mem_cons.mp hplain
      rw [longestRun] at hrun
      split_ifs at hrun with hquote
      · subst hquote
        rw [List.cons_append]
        -- the quotes at the end of the string stand directly before the closing ones
        cases s with
        | nil => exact longLiteralBody_close hrest 1 (by decide)
        | cons d s =>
            by_cases hend : d = '\'' ∧ s = []
            · obtain ⟨rfl, rfl⟩ := hend
              exact longLiteralBody_close hrest 2 (Nat.le_refl _)
            · rw [longLiteralBody_cons hc, ih htail hrun]
              · rfl
              · intro _ more heq
                obtain ⟨rfl, hmore⟩ := List.cons.inj heq
                cases s with
                | nil => exact hend ⟨rfl, rfl⟩
                | cons e s =>
                    obtain ⟨rfl, -⟩ := List.cons.inj hmore
                    rw [longestRun, if_pos rfl, longestRun, if_pos rfl] at hrun
                    have hle := le_longestRun '\'' s (run + 1 + 1 + 1)
                    omega
      · have hread := ih htail (Nat.le_trans (Nat.le_max_right _ _) hrun)
        rw [List.cons_append, longLiteralBody_cons hc (fun h => absurd h hquote), hread]
        rfl

/-! ### All forms -/

/-- What the form of a string says about its characters. -/
theorem quoteForm_cases (s : List Char) :
    QuoteForm.of s = .basic ∨ QuoteForm.of s = .longBasic ∨
      (QuoteForm.of s = .literal ∧ (∀ c ∈ s, isPlain c = true) ∧ '\'' ∉ s) ∨
      (QuoteForm.of s = .longLiteral ∧ (∀ c ∈ s, isPlain c = true ∨ c = '\n') ∧
        longestRun '\'' 0 s ≤ 2) := by
  have hplain : (!s.any isControl) = true → ∀ c ∈ s, isPlain c = true ∨ c = '\n' := by
    intro h c hc
    have hcontrol := List.any_eq_false.mp (by simpa using h) c hc
    by_cases hc : isPlain c = true
    · exact .inl hc
    · exact .inr (by simpa [isControl, hc] using hcontrol)
  unfold QuoteForm.of
  dsimp only
  split_ifs with h₁ h₂ h₃ h₄ h₅
  · exact .inl rfl
  · simp only [Bool.and_eq_true, beq_iff_eq] at h₂
    obtain ⟨⟨hcontrol, hsingles⟩, hbreak⟩ := h₂
    refine .inr (.inr (.inl ⟨rfl, fun c hc => ?_, not_mem_of_longestRun_eq_zero hsingles⟩))
    refine (hplain hcontrol c hc).resolve_right ?_
    rintro rfl
    simp [hc] at hbreak
  · exact .inr (.inl rfl)
  · simp only [Bool.and_eq_true, decide_eq_true_eq] at h₄
    exact .inr (.inr (.inr ⟨rfl, hplain h₄.1, h₄.2⟩))
  · exact .inr (.inl rfl)
  · exact .inl rfl

/-- The line break behind the opening quotes is dropped, and nothing else. -/
theorem dropLineBreak_opening {text : List Char}
    (h : '\n' ∉ s → ∀ d more, text = d :: more → d ≠ '\n' ∧ d ≠ '\x0d') :
    dropLineBreak ((if s.contains '\n' then ['\n'] else []) ++ text) = text := by
  split_ifs with hbreak
  · rfl
  · rw [List.nil_append]
    have hmem : '\n' ∉ s := by simpa using hbreak
    cases text with
    | nil => rfl
    | cons d more =>
        obtain ⟨hfeed, hreturn⟩ := h hmem d more rfl
        rw [dropLineBreak]
        · exact fun _ heq => hfeed (List.cons.inj heq).1
        · exact fun _ heq => hreturn (List.cons.inj heq).1

namespace Reader

/-- A quote that does not begin a run of three begins a string of one line. -/
theorem string_eq_shortString {q : Char} {more : List Char} (h : ∀ tail, more ≠ q :: q :: tail) :
    Reader.string (q :: more) = shortString (q :: more) := by
  rw [Reader.string]
  · rintro tail heq
    obtain ⟨rfl, hmore⟩ := List.cons.inj heq
    exact h tail hmore
  · rintro tail heq
    obtain ⟨rfl, hmore⟩ := List.cons.inj heq
    exact h tail hmore

/-- A string in the basic form is read back. -/
theorem string_basic (hrest : NoQuote '"' rest) :
    Reader.string ('"' :: (basicText s ++ '"' :: rest)) = some (s, rest) := by
  rw [string_eq_shortString]
  · exact basicBody_basicText s rest
  · intro tail heq
    cases s with
    | nil => exact hrest _ (List.cons.inj heq).2
    | cons c s => exact noQuote_basicText _ _ heq

/-- A string in the literal form is read back. -/
theorem string_literal (hplain : ∀ c ∈ s, isPlain c = true) (hquote : '\'' ∉ s)
    (hrest : NoQuote '\'' rest) :
    Reader.string ('\'' :: (s ++ '\'' :: rest)) = some (s, rest) := by
  rw [string_eq_shortString]
  · exact literalBody_append hplain hquote
  · intro tail heq
    cases s with
    | nil => exact hrest _ (List.cons.inj heq).2
    | cons c s => exact List.ne_of_not_mem_cons hquote (List.cons.inj heq).1.symm

/-- A string in the multi-line basic form is read back, with the line break that the writer puts in
front of it. -/
theorem string_longBasic (hrest : NoQuote '"' rest) :
    Reader.string ('"' :: '"' :: '"' :: ((if s.contains '\n' then ['\n'] else [])
      ++ (longBasicText 0 s ++ '"' :: '"' :: '"' :: rest))) = some (s, rest) := by
  rw [Reader.string, dropLineBreak_opening]
  · exact longBasicBody_longBasicText hrest (Nat.zero_le _)
  · intro hbreak d more heq
    cases s with
    | nil =>
        obtain ⟨rfl, -⟩ := List.cons.inj heq
        decide
    | cons c s =>
        rw [longBasicText] at heq
        split_ifs at heq with hquote hzero hfeed
        · exact absurd hzero (by decide)
        · obtain ⟨rfl, -⟩ := List.cons.inj heq
          decide
        · exact absurd hfeed.symm (List.ne_of_not_mem_cons hbreak)
        · obtain ⟨e, es, he, -, hne⟩ := exists_escape_eq hquote hfeed
          rw [he] at heq
          obtain ⟨rfl, -⟩ := List.cons.inj heq
          exact hne

/-- A string in the multi-line literal form is read back, with the line break that the writer puts
in front of it. -/
theorem string_longLiteral (hplain : ∀ c ∈ s, isPlain c = true ∨ c = '\n')
    (hrun : longestRun '\'' 0 s ≤ 2) (hrest : NoQuote '\'' rest) :
    Reader.string ('\'' :: '\'' :: '\'' :: ((if s.contains '\n' then ['\n'] else [])
      ++ (s ++ '\'' :: '\'' :: '\'' :: rest))) = some (s, rest) := by
  rw [Reader.string, dropLineBreak_opening]
  · exact longLiteralBody_append hrest hplain hrun
  · intro hbreak d more heq
    cases s with
    | nil =>
        obtain ⟨rfl, -⟩ := List.cons.inj heq
        decide
    | cons c s =>
        obtain ⟨rfl, -⟩ := List.cons.inj heq
        refine ⟨(List.ne_of_not_mem_cons hbreak).symm, ?_⟩
        rintro rfl
        exact absurd (hplain _ List.mem_cons_self) (by decide)

/-- Every string is read back from the form in which it is written. -/
theorem string_quote (s : List Char) (hdouble : NoQuote '"' rest) (hsingle : NoQuote '\'' rest) :
    Reader.string (quote s ++ rest) = some (s, rest) := by
  unfold quote
  rcases quoteForm_cases s with h | h | ⟨h, hplain, hquote⟩ | ⟨h, hplain, hrun⟩
  · rw [h]
    simpa using string_basic hdouble
  · rw [h]
    simpa using string_longBasic hdouble
  · rw [h]
    simpa using string_literal hplain hquote hsingle
  · rw [h]
    simpa using string_longLiteral hplain hrun hsingle

end Reader

end TaggedTuple.Toml
