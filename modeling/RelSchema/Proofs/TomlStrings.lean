import RelSchema.Toml.Quoted

/-!
# Reading quoted strings back

A string in the form that `quote` chooses is read as the string. Between single quotes characters
stand for themselves, which `Quoting.choose` has made sure of. Between double quotes every character
that could not stand for itself has an escape, so those two forms are read back whatever they hold.

Three closing quotes may follow quotes that belong to the string. The reader closes at the first
three quotes in a row and takes up to two more into the string, so the last quotes of the string are
the ones that it takes, and before them no three quotes stand in a row.
-/

namespace RelSchema

namespace Toml

/-! ## Characters -/

theorem ne_of_isPrintable {c : Char} (h : isPrintable c = true) : c ≠ '\n' ∧ c ≠ '\r' := by
  constructor <;> rintro rfl <;> simp [isPrintable] at h

theorem of_isBasicChar {c : Char} (h : isBasicChar c = true) :
    isPrintable c = true ∧ c ≠ '"' ∧ c ≠ '\\' := by
  simpa [isBasicChar, and_assoc] using h

theorem of_isLiteralChar {c : Char} (h : isLiteralChar c = true) :
    isPrintable c = true ∧ c ≠ '\'' := by
  simpa [isLiteralChar] using h

/-! ## Escapes -/

theorem codeChar?_fourHexDigits {c : Char} (h : c.toNat < 0xD800) :
    codeChar? (Text.fourHexDigits Text.upperHexDigit c.toNat) = some c := by
  have hcode := Text.ofDigits_fourHexDigits Text.digitValue?_upperHexDigit
    (show c.toNat < 65536 by omega)
  have hall := Text.all_isHexDigit_fourHexDigits Text.digitValue?_upperHexDigit c.toNat
  have hlt : c.toNat < 0x110000 := by omega
  simp [codeChar?, hcode, hall, h, hlt, Char.ofNat_toNat]

/-- How a character other than a quote or a line end is written between double quotes: behind a
backslash, by its code, or as it is. -/
theorem escapeChar_cases {c : Char} (hquote : c ≠ '"') (hline : c ≠ '\n') :
    (∃ e, escapeChar c = ['\\', e] ∧ escaped? e = some c ∧ e ∈ ['\\', 't', 'r', 'b', 'f']) ∨
    (∃ w x y z, escapeChar c = ['\\', 'u', w, x, y, z] ∧ codeChar? [w, x, y, z] = some c) ∨
    (escapeChar c = [c] ∧ isBasicChar c = true) := by
  unfold escapeChar
  by_cases hbackslash : c = '\\'
  · subst hbackslash; exact .inl ⟨'\\', by simp, rfl, by simp⟩
  by_cases htab : c = '\t'
  · subst htab; exact .inl ⟨'t', by simp, rfl, by simp⟩
  by_cases hreturn : c = '\r'
  · subst hreturn; exact .inl ⟨'r', by simp, rfl, by simp⟩
  by_cases h8 : c.toNat = 8
  · refine .inl ⟨'b', by simp [hbackslash, htab, hreturn, h8], ?_, by simp⟩
    rw [← Char.ofNat_toNat c, h8]
    rfl
  by_cases h12 : c.toNat = 12
  · refine .inl ⟨'f', by simp [hbackslash, htab, hreturn, h12], ?_, by simp⟩
    rw [← Char.ofNat_toNat c, h12]
    rfl
  simp only [hbackslash, htab, hreturn, h8, h12, if_false]
  by_cases hcontrol : isControl c = true
  · refine .inr (.inl ⟨_, _, _, _, if_pos hcontrol, codeChar?_fourHexDigits ?_⟩)
    simp [isControl, isPrintable] at hcontrol
    omega
  · refine .inr (.inr ⟨if_neg hcontrol, ?_⟩)
    simp only [isControl, Bool.and_eq_true, bne_iff_ne, ne_eq, hline, not_false_eq_true,
      and_true, Bool.not_eq_true', Bool.not_eq_false] at hcontrol
    simp [isBasicChar, hcontrol, hquote, hbackslash]

/-! ## Double quotes -/

theorem basicBody_basicChar (c : Char) {cs text rest : List Char}
    (h : basicBody cs = some (text, rest)) :
    basicBody (basicChar c ++ cs) = some (c :: text, rest) := by
  unfold basicChar
  by_cases hquote : c = '"'
  · subst hquote; simp [basicBody, escaped?, consChar, h]
  by_cases hline : c = '\n'
  · subst hline; simp [basicBody, escaped?, consChar, h]
  simp only [hquote, hline, if_false]
  obtain ⟨e, htext, he, hmem⟩ | ⟨w, x, y, z, htext, hcode⟩ | ⟨htext, hc⟩ :=
    escapeChar_cases hquote hline
  · rw [htext]
    simp only [List.mem_cons, List.not_mem_nil, or_false] at hmem
    rcases hmem with rfl | rfl | rfl | rfl | rfl <;> simp [basicBody, he, consChar, h]
  · rw [htext]
    simp [basicBody, hcode, consChar, h]
  · rw [htext]
    obtain ⟨-, -, hbackslash⟩ := of_isBasicChar hc
    simp [basicBody, hbackslash, hc, consChar, h]

theorem basicBody_escaped (cs rest : List Char) :
    basicBody (cs.flatMap basicChar ++ '"' :: rest) = some (cs, rest) := by
  induction cs with
  | nil => simp [basicBody]
  | cons c cs ih =>
    rw [List.flatMap_cons, List.append_assoc]
    exact basicBody_basicChar c ih

/-! ## Single quotes -/

theorem literalBody_append {cs : List Char} (h : ∀ c ∈ cs, isLiteralChar c = true)
    (rest : List Char) : literalBody (cs ++ '\'' :: rest) = some (cs, rest) := by
  induction cs with
  | nil => simp [literalBody]
  | cons c cs ih =>
    have hc := h c List.mem_cons_self
    obtain ⟨-, hquote⟩ := of_isLiteralChar hc
    have hcs := ih fun d hd => h d (List.mem_cons_of_mem c hd)
    simp [literalBody, hc, hcs, consChar]

/-! ## Three quotes -/

/-- Behind three closing quotes, up to two more are the last ones of the string. -/
theorem closing_replicate {quote : Char} (hquote : quote ≠ '\n') {count : Nat} (hcount : count ≤ 2)
    (rest : List Char) :
    closing quote (List.replicate count quote ++ '\n' :: rest) =
      (List.replicate count quote, '\n' :: rest) := by
  have hline : '\n' ≠ quote := Ne.symm hquote
  obtain rfl | rfl | rfl : count = 0 ∨ count = 1 ∨ count = 2 := by omega
  · cases rest <;> simp [closing, hline]
  · simp [closing, hline]
  · simp [closing]

theorem multilineBasicBody_close {count : Nat} (hcount : count ≤ 2) (rest : List Char) :
    multilineBasicBody false (List.replicate count '"' ++ '"' :: '"' :: '"' :: '\n' :: rest) =
      some (List.replicate count '"', '\n' :: rest) := by
  have hclosing := closing_replicate (show '"' ≠ '\n' by decide) hcount rest
  obtain rfl | rfl | rfl : count = 0 ∨ count = 1 ∨ count = 2 := by omega
  all_goals simpa [multilineBasicBody, List.replicate] using hclosing

theorem multilineBasicBody_quote {cs text rest : List Char}
    (hcs : ∀ more, cs ≠ '"' :: '"' :: more)
    (h : multilineBasicBody false cs = some (text, rest)) :
    multilineBasicBody false ('"' :: cs) = some ('"' :: text, rest) := by
  rw [multilineBasicBody]
  · simp [h, consChar]
  all_goals simp_all

theorem multilineBasicBody_escapedQuote {cs text rest : List Char}
    (h : multilineBasicBody false cs = some (text, rest)) :
    multilineBasicBody false ('\\' :: '"' :: cs) = some ('"' :: text, rest) := by
  simp [multilineBasicBody, isLineTail, skipBlanks, isBlank, newline?, escaped?, consChar, h]

theorem multilineBasicBody_escapeChar {c : Char} (hquote : c ≠ '"') (hline : c ≠ '\n')
    {cs text rest : List Char} (h : multilineBasicBody false cs = some (text, rest)) :
    multilineBasicBody false (escapeChar c ++ cs) = some (c :: text, rest) := by
  obtain ⟨e, htext, he, hmem⟩ | ⟨w, x, y, z, htext, hcode⟩ | ⟨htext, hc⟩ :=
    escapeChar_cases hquote hline
  · rw [htext]
    simp only [List.mem_cons, List.not_mem_nil, or_false] at hmem
    rcases hmem with rfl | rfl | rfl | rfl | rfl <;>
      simp [multilineBasicBody, isLineTail, skipBlanks, isBlank, newline?, he, consChar, h]
  · rw [htext]
    simp [multilineBasicBody, hcode, consChar, h]
  · rw [htext]
    obtain ⟨hprintable, -, hbackslash⟩ := of_isBasicChar hc
    have hreturn := (ne_of_isPrintable hprintable).2
    rw [List.singleton_append, multilineBasicBody]
    · simp [hc, consChar, h]
    all_goals simp [hquote, hline, hreturn, hbackslash]

theorem multilineBasicBody_newline {cs text rest : List Char}
    (h : multilineBasicBody false cs = some (text, rest)) :
    multilineBasicBody false ('\n' :: cs) = some ('\n' :: text, rest) := by
  simp [multilineBasicBody, consChar, h]

/-- The text of a character begins with a quote only if the character is one, and not the third. -/
theorem multilineText_cons_eq {quotes : Nat} {c : Char} {cs tail more : List Char}
    (h : multilineText quotes (c :: cs) ++ tail = '"' :: more) :
    c = '"' ∧ quotes ≠ 2 ∧ multilineText (quotes + 1) cs ++ tail = more := by
  by_cases hquote : c = '"'
  · subst hquote
    by_cases htwo : quotes = 2
    · simp [multilineText, htwo] at h
    · simp only [multilineText, if_true, htwo, if_false, List.cons_append, List.cons.injEq,
        true_and] at h
      exact ⟨rfl, htwo, h⟩
  by_cases hline : c = '\n'
  · simp [multilineText, hline] at h
  simp only [multilineText, hquote, hline, if_false] at h
  obtain ⟨e, htext, -⟩ | ⟨w, x, y, z, htext, -⟩ | ⟨htext, -⟩ := escapeChar_cases hquote hline
  · simp [htext] at h
  · simp [htext] at h
  · simp [htext, hquote] at h

/-- Behind one quote or two, two more in a row are already the end of the text. -/
theorem eq_of_multilineText_eq {quotes : Nat} (hquotes : quotes = 1 ∨ quotes = 2)
    {cs tail more : List Char} (h : multilineText quotes cs ++ tail = '"' :: '"' :: more) :
    cs = [] ∨ (quotes = 1 ∧ cs = ['"']) := by
  cases cs with
  | nil => exact .inl rfl
  | cons c cs =>
    obtain ⟨rfl, htwo, hcs⟩ := multilineText_cons_eq h
    have hone : quotes = 1 := hquotes.resolve_right htwo
    subst hone
    cases cs with
    | nil => exact .inr ⟨rfl, rfl⟩
    | cons d cs => exact absurd rfl (multilineText_cons_eq hcs).2.1

/-- The body of a string in three double quotes, where `quotes` quotes in a row have been read. -/
theorem multilineBasicBody_multilineText {quotes : Nat} (hquotes : quotes ≤ 2)
    (cs rest : List Char) :
    multilineBasicBody false (multilineText quotes cs ++ '"' :: '"' :: '"' :: '\n' :: rest) =
      some (cs, '\n' :: rest) := by
  induction cs generalizing quotes with
  | nil => exact multilineBasicBody_close (Nat.zero_le 2) rest
  | cons c cs ih =>
    by_cases hquote : c = '"'
    · subst hquote
      by_cases htwo : quotes = 2
      · simp only [multilineText, htwo, if_true, List.cons_append]
        exact multilineBasicBody_escapedQuote (ih (Nat.zero_le 2))
      · simp only [multilineText, htwo, if_true, if_false, List.cons_append]
        -- the last one or two quotes stand in front of the closing ones, all read at once
        by_cases hone : cs = []
        · subst hone
          exact multilineBasicBody_close (show 1 ≤ 2 by decide) rest
        by_cases hlast : quotes + 1 = 1 ∧ cs = ['"']
        · obtain ⟨hzero, rfl⟩ := hlast
          rw [hzero]
          exact multilineBasicBody_close (Nat.le_refl 2) rest
        · refine multilineBasicBody_quote (fun more hmore => ?_) (ih (by omega))
          rcases eq_of_multilineText_eq (by omega) hmore with hnil | hquote
          · exact hone hnil
          · exact hlast hquote
    by_cases hline : c = '\n'
    · subst hline
      simp only [multilineText, hquote, if_true, if_false, List.cons_append]
      exact multilineBasicBody_newline (ih (Nat.zero_le 2))
    · simp only [multilineText, hquote, hline, if_false, List.append_assoc]
      exact multilineBasicBody_escapeChar hquote hline (ih (Nat.zero_le 2))

theorem multilineLiteralBody_close {count : Nat} (hcount : count ≤ 2) (rest : List Char) :
    multilineLiteralBody
        (List.replicate count '\'' ++ '\'' :: '\'' :: '\'' :: '\n' :: rest) =
      some (List.replicate count '\'', '\n' :: rest) := by
  have hclosing := closing_replicate (show '\'' ≠ '\n' by decide) hcount rest
  obtain rfl | rfl | rfl : count = 0 ∨ count = 1 ∨ count = 2 := by omega
  all_goals simpa [multilineLiteralBody, List.replicate] using hclosing

theorem multilineLiteralBody_char {c : Char} (hc : isPrintable c = true ∨ c = '\n')
    {cs text rest : List Char} (hcs : c = '\'' → ∀ more, cs ≠ '\'' :: '\'' :: more)
    (h : multilineLiteralBody cs = some (text, rest)) :
    multilineLiteralBody (c :: cs) = some (c :: text, rest) := by
  obtain hprintable | rfl := hc
  · obtain ⟨hline, hreturn⟩ := ne_of_isPrintable hprintable
    rw [multilineLiteralBody]
    · simp [hprintable, h, consChar]
    all_goals simp_all
  · simp [multilineLiteralBody, h, consChar]

theorem hasTriple_tail {q c : Char} {cs : List Char} (h : hasTriple q (c :: cs) = false) :
    hasTriple q cs = false := by
  match cs with
  | [] => rfl
  | [_] => rfl
  | d :: e :: cs =>
    rw [hasTriple, Bool.or_eq_false_iff] at h
    exact h.2

/-- In a text without three quotes in a row, two more behind a quote are already its end. -/
theorem eq_of_hasTriple_eq_false {q : Char} {cs tail more : List Char}
    (htriple : hasTriple q (q :: cs) = false) (h : cs ++ tail = q :: q :: more) :
    cs = [] ∨ cs = [q] := by
  match cs with
  | [] => exact .inl rfl
  | [d] => exact .inr (by rw [(List.cons.inj h).1])
  | d :: e :: cs =>
    simp only [List.cons_append, List.cons.injEq] at h
    obtain ⟨rfl, rfl, -⟩ := h
    simp [hasTriple] at htriple

/-- The body of a string in three single quotes, which holds no three of them in a row. -/
theorem multilineLiteralBody_append {cs : List Char}
    (hchars : ∀ c ∈ cs, isPrintable c = true ∨ c = '\n') (htriple : hasTriple '\'' cs = false)
    (rest : List Char) :
    multilineLiteralBody (cs ++ '\'' :: '\'' :: '\'' :: '\n' :: rest) =
      some (cs, '\n' :: rest) := by
  induction cs with
  | nil => exact multilineLiteralBody_close (Nat.zero_le 2) rest
  | cons c cs ih =>
    by_cases hone : c = '\'' ∧ cs = []
    · obtain ⟨rfl, rfl⟩ := hone
      exact multilineLiteralBody_close (show 1 ≤ 2 by decide) rest
    by_cases htwo : c = '\'' ∧ cs = ['\'']
    · obtain ⟨rfl, rfl⟩ := htwo
      exact multilineLiteralBody_close (Nat.le_refl 2) rest
    · refine multilineLiteralBody_char (hchars c List.mem_cons_self) (fun hc more hmore => ?_)
        (ih (fun d hd => hchars d (List.mem_cons_of_mem c hd)) (hasTriple_tail htriple))
      subst hc
      rcases eq_of_hasTriple_eq_false htriple hmore with hcs | hcs
      · exact hone ⟨rfl, hcs⟩
      · exact htwo ⟨rfl, hcs⟩

/-! ## The line end behind three opening quotes -/

theorem newline?_eq_none {cs : List Char} (h : ∀ c ∈ cs.head?, c ≠ '\n' ∧ c ≠ '\r') :
    newline? cs = none := by
  unfold newline?
  split
  · exact absurd rfl (h '\n' rfl).1
  · exact absurd rfl (h '\r' rfl).2
  · rfl

/-- The reader drops the line end that the writer has put in front of the text, and no other. -/
theorem trimFirstNewline_openingNewline {cs text : List Char}
    (h : '\n' ∉ cs → ∀ c ∈ text.head?, c ≠ '\n' ∧ c ≠ '\r') :
    trimFirstNewline (openingNewline cs ++ text) = text := by
  unfold openingNewline
  by_cases hline : '\n' ∈ cs
  · simp [hline, trimFirstNewline, newline?]
  · simp [hline, trimFirstNewline, newline?_eq_none (h hline)]

theorem head?_multilineText {cs : List Char} (hline : '\n' ∉ cs) (tail : List Char) :
    ∀ c ∈ (multilineText 0 cs ++ '"' :: tail).head?, c ≠ '\n' ∧ c ≠ '\r' := by
  cases cs with
  | nil => simp [multilineText]
  | cons c cs =>
    by_cases hquote : c = '"'
    · simp [multilineText, hquote]
    have hc : c ≠ '\n' := fun heq => hline (heq ▸ List.mem_cons_self)
    simp only [multilineText, hquote, hc, if_false]
    obtain ⟨e, htext, -⟩ | ⟨w, x, y, z, htext, -⟩ | ⟨htext, hbasic⟩ := escapeChar_cases hquote hc
    · simp [htext]
    · simp [htext]
    · have hreturn := (ne_of_isPrintable (of_isBasicChar hbasic).1).2
      simp [htext, hc, hreturn]

/-! ## The form that is chosen -/

theorem isPrintable_or_of_any_eq_false {cs : List Char} (h : cs.any isControl = false) :
    ∀ c ∈ cs, isPrintable c = true ∨ c = '\n' := by
  intro c hc
  have hcontrol := List.any_eq_false.1 h c hc
  rw [isControl, Bool.not_eq_true, Bool.and_eq_false_iff] at hcontrol
  simpa using hcontrol

/-- What a string between single quotes has to hold is asked before they are chosen. -/
theorem of_choose_eq_literal {cs : List Char} (h : Quoting.choose cs = .literal) :
    ∀ c ∈ cs, isLiteralChar c = true := by
  simp only [Quoting.choose] at h
  split at h
  · split at h <;> contradiction
  split at h
  · contradiction
  split at h
  · rename_i hcontrol _ hplain
    simp only [Bool.and_eq_true, Bool.not_eq_true', List.contains_eq_mem,
      decide_eq_false_iff_not] at hplain
    intro c hc
    have hquote : c ≠ '\'' := fun heq => hplain.1 (heq ▸ hc)
    rcases isPrintable_or_of_any_eq_false (Bool.not_eq_true _ ▸ hcontrol) c hc with hprint | rfl
    · simp [isLiteralChar, hprint, hquote]
    · exact absurd hc hplain.2
  split at h
  · contradiction
  split at h
  · contradiction
  split at h <;> contradiction

theorem of_choose_eq_multilineLiteral {cs : List Char}
    (h : Quoting.choose cs = .multilineLiteral) :
    (∀ c ∈ cs, isPrintable c = true ∨ c = '\n') ∧ hasTriple '\'' cs = false := by
  simp only [Quoting.choose] at h
  split at h
  · split at h <;> contradiction
  split at h
  · contradiction
  split at h
  · contradiction
  split at h
  · contradiction
  split at h
  · rename_i hcontrol _ _ _ htriple
    exact ⟨isPrintable_or_of_any_eq_false (Bool.not_eq_true _ ▸ hcontrol), by simpa using htriple⟩
  split at h <;> contradiction

theorem basicChar_append_ne (c : Char) (cs more : List Char) :
    basicChar c ++ cs ≠ '"' :: more := by
  unfold basicChar
  by_cases hquote : c = '"'
  · simp [hquote]
  by_cases hline : c = '\n'
  · simp [hline]
  simp only [hquote, hline, if_false]
  obtain ⟨e, htext, -⟩ | ⟨w, x, y, z, htext, -⟩ | ⟨htext, -⟩ := escapeChar_cases hquote hline
  · simp [htext]
  · simp [htext]
  · simp [htext, hquote]

/-- **Strings read back in every form.** A string that the writer has put at the end of a line is
read with exactly its characters, and the line end is left. -/
theorem stringText_quote (cs rest : List Char) :
    stringText (quote cs ++ '\n' :: rest) = some (cs, '\n' :: rest) := by
  unfold quote
  cases hchoose : Quoting.choose cs with
  | basic =>
    have hbody := basicBody_escaped cs ('\n' :: rest)
    simp only [List.cons_append, List.append_assoc, List.nil_append]
    rw [stringText]
    · exact hbody
    · -- a string that begins with a quote begins with its escape
      intro more hmore
      cases cs with
      | nil => simp at hmore
      | cons c cs =>
        rw [List.flatMap_cons, List.append_assoc] at hmore
        exact basicChar_append_ne c _ _ hmore
  | literal =>
    have hbody := literalBody_append (of_choose_eq_literal hchoose) ('\n' :: rest)
    simp only [List.cons_append, List.append_assoc, List.nil_append]
    rw [stringText]
    · exact hbody
    · intro more hmore
      cases cs with
      | nil => simp at hmore
      | cons c cs =>
        have hc := of_choose_eq_literal hchoose c List.mem_cons_self
        exact (of_isLiteralChar hc).2 (List.cons.inj hmore).1
  | multilineBasic =>
    have hbody := multilineBasicBody_multilineText (Nat.zero_le 2) cs rest
    simp only [List.cons_append, List.append_assoc, List.nil_append, stringText]
    rw [trimFirstNewline_openingNewline fun hline => head?_multilineText hline _]
    exact hbody
  | multilineLiteral =>
    obtain ⟨hchars, htriple⟩ := of_choose_eq_multilineLiteral hchoose
    have hbody := multilineLiteralBody_append hchars htriple rest
    simp only [List.cons_append, List.append_assoc, List.nil_append, stringText]
    rw [trimFirstNewline_openingNewline]
    · exact hbody
    · intro hline c hc
      cases cs with
      | nil =>
        obtain rfl : '\'' = c := by simpa using hc
        decide
      | cons d cs =>
        obtain rfl : d = c := by simpa using hc
        rcases hchars d List.mem_cons_self with hprint | rfl
        · exact ne_of_isPrintable hprint
        · exact absurd List.mem_cons_self hline

end Toml

end RelSchema
