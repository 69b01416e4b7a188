import RelSchema.Proofs.Decoding
import RelSchema.Proofs.TomlStrings
import RelSchema.Toml.Document

/-!
# Reading written documents back

A written document is made of lines under bare keys, blank lines and headers. Each is read on its
own: `Line.ReadAs` says what lines a text holds, with one law for each kind of line in front of a
text that is read already. The lines of a document with one section, whose keys are all different,
then make the table of its settings followed by the table of the section.
-/

namespace RelSchema

namespace Toml

/-! ## Values at the end of a line -/

/-- The text is a written form of the value: it is read as the value when it ends a line. -/
structure Writes (text : List Char) (v : Toml) : Prop where
  value_eq : ∀ (steps : Nat) (rest : List Char),
    value (steps + 1) maxDepth (text ++ '\n' :: rest) = some (v, '\n' :: rest)
  /-- Blanks in front of the text are not part of it. -/
  opening : ∀ c ∈ text.head?, isBlank c = false

theorem Writes.skipBlanks_eq {text : List Char} {v : Toml} (h : Writes text v)
    (rest : List Char) : skipBlanks (' ' :: (text ++ '\n' :: rest)) = text ++ '\n' :: rest := by
  cases text with
  | nil => simp [skipBlanks, isBlank]
  | cons c text => simp [skipBlanks, h.opening c rfl, show isBlank ' ' = true from rfl]

theorem quote_eq_cons (cs : List Char) :
    ∃ q text, quote cs = q :: text ∧ (q = '"' ∨ q = '\'') := by
  unfold quote
  cases Quoting.choose cs with
  | basic => exact ⟨_, _, rfl, .inl rfl⟩
  | literal => exact ⟨_, _, rfl, .inr rfl⟩
  | multilineBasic => exact ⟨_, _, rfl, .inl rfl⟩
  | multilineLiteral => exact ⟨_, _, rfl, .inr rfl⟩

theorem writes_quote (s : String) : Writes (quote s.toList) (.string s) := by
  obtain ⟨q, text, htext, hq⟩ := quote_eq_cons s.toList
  constructor
  · intro steps rest
    have hstring := stringText_quote s.toList rest
    rw [htext, List.cons_append] at hstring ⊢
    rcases hq with rfl | rfl <;> simp [value, hstring]
  · rw [htext]
    rcases hq with rfl | rfl <;> simp [isBlank]

theorem writes_booleanText (b : Bool) : Writes (booleanText b) (.boolean b) := by
  constructor
  · intro steps rest
    cases b <;> simp [booleanText, value, scalar]
  · cases b <;> simp [booleanText, isBlank]

/-! ## Bare keys -/

/-- Whether the word can stand as a key without quotes. -/
def isBareWord (word : String) : Bool :=
  !word.toList.isEmpty && word.toList.all isBareKeyChar

theorem ne_of_isBareKeyChar {c d : Char} (hc : isBareKeyChar c = true)
    (hd : isBareKeyChar d = false) : c ≠ d := by
  rintro rfl
  rw [hc] at hd
  contradiction

/-- A bare word begins with a character that begins no blank, header, comment or string. -/
theorem exists_toList_eq_cons {word : String} (h : isBareWord word = true) :
    ∃ c cs, word.toList = c :: cs ∧ isBareKeyChar c = true := by
  simp only [isBareWord, Bool.and_eq_true, Bool.not_eq_true', List.all_eq_true] at h
  cases hword : word.toList with
  | nil => simp [hword] at h
  | cons c cs => exact ⟨c, cs, rfl, h.2 c (by simp [hword])⟩

theorem isBlank_of_isBareKeyChar {c : Char} (h : isBareKeyChar c = true) : isBlank c = false := by
  have hspace := ne_of_isBareKeyChar h (show isBareKeyChar ' ' = false by decide)
  have htab := ne_of_isBareKeyChar h (show isBareKeyChar '\t' = false by decide)
  simp [isBlank, hspace, htab]

theorem skipBlanks_bareWord {word : String} (h : isBareWord word = true) (rest : List Char) :
    skipBlanks (word.toList ++ rest) = word.toList ++ rest := by
  obtain ⟨c, cs, hword, hc⟩ := exists_toList_eq_cons h
  simp [hword, skipBlanks, isBlank_of_isBareKeyChar hc]

theorem simpleKey_bareWord {word : String} (h : isBareWord word = true) {rest : List Char}
    (hrest : ∀ c ∈ rest.head?, isBareKeyChar c = false) :
    simpleKey (word.toList ++ rest) = some (word, rest) := by
  obtain ⟨c, cs, hword, hc⟩ := exists_toList_eq_cons h
  have hall : ∀ d ∈ word.toList, isBareKeyChar d = true := by
    simp only [isBareWord, Bool.and_eq_true, List.all_eq_true] at h
    exact h.2
  have hspan := span_append hall hrest
  have hdouble : c ≠ '"' := ne_of_isBareKeyChar hc (by decide)
  have hsingle : c ≠ '\'' := ne_of_isBareKeyChar hc (by decide)
  rw [hword, List.cons_append] at hspan ⊢
  unfold simpleKey
  split
  · exact absurd (List.cons.inj ‹_›).1 hdouble
  · exact absurd (List.cons.inj ‹_›).1 hsingle
  · rw [hspan]
    show some (String.ofList (c :: cs), rest) = some (word, rest)
    rw [← hword, String.ofList_toList]

/-- A bare word is a key of its own where neither a dot nor more of the word follows. -/
theorem key_bareWord {word : String} (h : isBareWord word = true) {rest : List Char}
    (hrest : ∀ c ∈ rest.head?, isBareKeyChar c = false)
    (hdot : ∀ c ∈ (skipBlanks rest).head?, c ≠ '.') :
    key (word.toList ++ rest) = some ([word], skipBlanks rest) := by
  have hkey := simpleKey_bareWord h hrest
  have hdotted : ∀ parts, dottedKey (parts + 1) (word.toList ++ rest) =
      some ([word], skipBlanks rest) := by
    intro parts
    simp only [dottedKey, skipBlanks_bareWord h, hkey]
    split
    · rename_i heq
      exact absurd rfl (hdot '.' (by rw [heq]; rfl))
    · rfl
  exact hdotted 78

/-! ## Lines -/

namespace Line

theorem lineEnd?_newline (rest : List Char) : lineEnd? ('\n' :: rest) = some rest := by
  simp [lineEnd?, skipBlanks, isBlank, skipComment, newline?]

theorem pair?_pairLine {word : String} (hword : isBareWord word = true) {text : List Char}
    {v : Toml} (h : Writes text v) (steps : Nat) (rest : List Char) :
    pair? (steps + 1) (pairLine word text ++ rest) = some (pair [word] v, rest) := by
  have hline : pairLine word text ++ rest =
      word.toList ++ (' ' :: '=' :: ' ' :: (text ++ '\n' :: rest)) := by
    simp [pairLine]
  have hkey : key (word.toList ++ (' ' :: '=' :: ' ' :: (text ++ '\n' :: rest))) =
      some ([word], '=' :: ' ' :: (text ++ '\n' :: rest)) :=
    key_bareWord hword (by simp [isBareKeyChar]) (by simp [skipBlanks, isBlank])
  rw [pair?, hline, hkey]
  simp only [h.skipBlanks_eq, h.value_eq, lineEnd?_newline, Option.map_some]

theorem header?_bareWord {word : String} (hword : isBareWord word = true) (rest : List Char) :
    header? (word.toList ++ (']' :: '\n' :: rest)) = some (table [word], rest) := by
  obtain ⟨c, cs, hcs, hc⟩ := exists_toList_eq_cons hword
  have hbracket : c ≠ '[' := ne_of_isBareKeyChar hc (by decide)
  have hkey : key (word.toList ++ (']' :: '\n' :: rest)) = some ([word], ']' :: '\n' :: rest) :=
    key_bareWord hword (by simp [isBareKeyChar]) (by simp [skipBlanks, isBlank])
  rw [hcs, List.cons_append] at hkey ⊢
  unfold header?
  split
  · exact absurd (List.cons.inj ‹_›).1 hbracket
  · simp only [hkey, lineEnd?_newline, Option.map_some]

/-- A line that begins like a key is read as a pair. -/
theorem readAll_pair {steps count : Nat} {c : Char} (hc : isBareKeyChar c = true)
    {cs rest : List Char} {line : Line} {lines : List Line}
    (hpair : pair? steps (c :: cs) = some (line, rest))
    (hrest : readAll steps count rest = some lines) :
    readAll steps (count + 1) (c :: cs) = some (line :: lines) := by
  have hbracket : c ≠ '[' := ne_of_isBareKeyChar hc (by decide)
  have hcomment : c ≠ '#' := ne_of_isBareKeyChar hc (by decide)
  have hline : c ≠ '\n' := ne_of_isBareKeyChar hc (by decide)
  have hreturn : c ≠ '\r' := ne_of_isBareKeyChar hc (by decide)
  have hskip : skipBlanks (c :: cs) = c :: cs := by
    simp [skipBlanks, isBlank_of_isBareKeyChar hc]
  rw [readAll, hskip]
  simp [hcomment, hline, hreturn, hpair, hrest]

/-- The text is read as these lines, when the reader may take more lines than it has characters. -/
def ReadAs (text : List Char) (lines : List Line) : Prop :=
  ∀ steps count : Nat, text.length ≤ count → readAll (steps + 1) (count + 1) text = some lines

namespace ReadAs

theorem nil : ReadAs [] [] := fun _ _ _ => rfl

theorem blank {rest : List Char} {lines : List Line} (h : ReadAs rest lines) :
    ReadAs ('\n' :: rest) lines := by
  intro steps count hcount
  rw [List.length_cons] at hcount
  obtain ⟨count, rfl⟩ : ∃ n, count = n + 1 := ⟨count - 1, by omega⟩
  have hrest := h steps count (by omega)
  rw [readAll]
  simp [skipBlanks, isBlank, lineEnd?_newline, hrest]

theorem pairLine {rest : List Char} {lines : List Line} (h : ReadAs rest lines) (word : String)
    (hword : isBareWord word = true) {text : List Char} {v : Toml} (htext : Writes text v) :
    ReadAs (pairLine word text ++ rest) (pair [word] v :: lines) := by
  intro steps count hcount
  have hlength : rest.length < count := by
    simp [Toml.pairLine] at hcount
    omega
  obtain ⟨count, rfl⟩ : ∃ n, count = n + 1 := ⟨count - 1, by omega⟩
  obtain ⟨c, cs, hcs, hc⟩ := exists_toList_eq_cons hword
  have hpair := pair?_pairLine hword htext steps rest
  have hrest := h steps count (by omega)
  simp only [Toml.pairLine, hcs, List.cons_append] at hpair ⊢
  exact readAll_pair hc hpair hrest

theorem headerLine {rest : List Char} {lines : List Line} (h : ReadAs rest lines) (word : String)
    (hword : isBareWord word = true) : ReadAs (headerLine word ++ rest) (table [word] :: lines) := by
  intro steps count hcount
  have hlength : rest.length < count := by
    simp [Toml.headerLine] at hcount
    omega
  obtain ⟨count, rfl⟩ : ∃ n, count = n + 1 := ⟨count - 1, by omega⟩
  have hheader := header?_bareWord hword rest
  have hrest := h steps count (by omega)
  rw [readAll]
  simp [Toml.headerLine, skipBlanks, isBlank, hheader, hrest]

end ReadAs

end Line

/-- A text that does not open with the mark of Unicode stands for what its lines make. -/
theorem parse?_eq_ofLines? {cs : List Char} {lines : List Line} (h : Line.ReadAs cs lines)
    (hmark : ∀ c ∈ cs.head?, c ≠ Char.ofNat 0xFEFF) :
    parse? (String.ofList cs) = ofLines? lines := by
  have hskip : skipByteOrderMark cs = cs := by
    cases cs with
    | nil => rfl
    | cons c cs => exact if_neg (hmark c rfl)
  have hlines := h (2 * cs.length + 1) cs.length (Nat.le_refl _)
  simp only [parse?, String.toList_ofList, hskip, hlines, Option.bind_some]

/-! ## Settings and one section -/

/-- Plain pairs as entries of a table that is being read. -/
def valueNodes (pairs : List (String × Toml)) : List (String × Node) :=
  pairs.map (Prod.map id Node.value)

/-- The lines of these pairs. -/
def pairLines (pairs : List (String × Toml)) : List Line := pairs.map fun p => .pair [p.1] p.2

namespace Draft

theorem putEntry_of_not_mem {key : String} {entries : List (String × Node)}
    (h : key ∉ entries.map Prod.fst) (node : Node) :
    putEntry key node entries = entries ++ [(key, node)] := by
  induction entries with
  | nil => rfl
  | cons e entries ih =>
    simp only [List.map_cons, List.mem_cons, not_or] at h
    rw [putEntry, if_neg (Ne.symm h.1), ih h.2, List.cons_append]

theorem putEntry_last {key : String} {entries : List (String × Node)}
    (h : key ∉ entries.map Prod.fst) (old node : Node) :
    putEntry key node (entries ++ [(key, old)]) = entries ++ [(key, node)] := by
  induction entries with
  | nil => simp [putEntry]
  | cons e entries ih =>
    simp only [List.map_cons, List.mem_cons, not_or] at h
    rw [List.cons_append, putEntry, if_neg (Ne.symm h.1), ih h.2, List.cons_append]

theorem lookup_of_not_mem {key : String} {entries : List (String × Node)}
    (h : key ∉ entries.map Prod.fst) : entries.lookup key = none := by
  rw [List.lookup_eq_none_iff]
  intro e he
  simpa using fun heq : key = e.1 => h (heq ▸ List.mem_map_of_mem he)

theorem lookup_last {key : String} {entries : List (String × Node)}
    (h : key ∉ entries.map Prod.fst) (node : Node) :
    (entries ++ [(key, node)]).lookup key = some node := by
  rw [List.lookup_append, lookup_of_not_mem h]
  simp

/-- A value under a new key of a table with a header stands behind the entries before it. -/
theorem addPair_of_not_mem {key : String} {entries : List (String × Node)}
    (h : key ∉ entries.map Prod.fst) (v : Toml) :
    (mk false false entries).addPair [key] v =
      some (mk false false (entries ++ [(key, .value v)])) := by
  simp [addPair, splitLast?, descend, dotted, find?, Draft.entries, lookup_of_not_mem h, put,
    putEntry_of_not_mem h]

end Draft

namespace Progress

/-- Lines of pairs fill the table at `place`, when each fills it by one entry. -/
theorem foldlM_pairLines {place : List (String × Node) → Progress}
    (hplace : ∀ entries key v, key ∉ entries.map Prod.fst →
      (place entries).add (.pair [key] v) = some (place (entries ++ [(key, .value v)])))
    {pairs : List (String × Toml)} {entries : List (String × Node)}
    (h : (entries.map Prod.fst ++ pairs.map Prod.fst).Nodup) :
    (pairLines pairs).foldlM add (place entries) = some (place (entries ++ valueNodes pairs)) := by
  induction pairs generalizing entries with
  | nil => simp [pairLines, valueNodes]
  | cons p pairs ih =>
    obtain ⟨key, v⟩ := p
    have hkey : key ∉ entries.map Prod.fst := by
      intro hmem
      exact (List.nodup_append.1 h).2.2 key hmem key List.mem_cons_self rfl
    have hrest : ((entries ++ [(key, Node.value v)]).map Prod.fst ++ pairs.map Prod.fst).Nodup := by
      simpa using h
    have hfold := ih hrest
    rw [List.append_assoc] at hfold
    rw [pairLines, List.map_cons, List.foldlM_cons, hplace entries key v hkey]
    exact hfold

theorem add_setting (entries : List (String × Node)) (key : String) (v : Toml)
    (h : key ∉ entries.map Prod.fst) :
    add ⟨.mk false false entries, []⟩ (.pair [key] v) =
      some ⟨.mk false false (entries ++ [(key, .value v)]), []⟩ := by
  simp [add, Draft.descend, Draft.addPair_of_not_mem h]

theorem add_header {settings : List (String × Node)} {name : String}
    (h : name ∉ settings.map Prod.fst) :
    add ⟨.mk false false settings, []⟩ (.table [name]) =
      some ⟨.mk false false (settings ++ [(name, .table .explicit)]), [name]⟩ := by
  simp [add, Draft.openTable, Draft.splitLast?, Draft.descend, Draft.find?, Draft.entries,
    Draft.lookup_of_not_mem h, Draft.put, Draft.putEntry_of_not_mem h]

theorem add_sectionPair {settings : List (String × Node)} {name : String}
    (hname : name ∉ settings.map Prod.fst) (entries : List (String × Node)) (key : String)
    (v : Toml) (h : key ∉ entries.map Prod.fst) :
    add ⟨.mk false false (settings ++ [(name, .table (.mk false false entries))]), [name]⟩
        (.pair [key] v) =
      some ⟨.mk false false (settings ++
        [(name, .table (.mk false false (entries ++ [(key, .value v)])))]), [name]⟩ := by
  simp [add, Draft.descend, Draft.find?, Draft.entries, Draft.lookup_last hname, Draft.put,
    Draft.putEntry_last hname, Draft.addPair_of_not_mem h]

end Progress

theorem finishEntries_append (pairs : List (String × Toml)) (entries : List (String × Node)) :
    finishEntries (valueNodes pairs ++ entries) = pairs ++ finishEntries entries := by
  induction pairs with
  | nil => rfl
  | cons p pairs ih =>
    rw [valueNodes, List.map_cons, List.cons_append, ← valueNodes]
    simp [finishEntries, Node.finish, ih]

/-- **Settings and one section.** Lines under keys that are all different, then a header and lines
under keys that are all different again, make the table of the settings with that of the section
behind them. -/
theorem ofLines?_section {settings pairs : List (String × Toml)} {name : String}
    (hsettings : (settings.map Prod.fst ++ [name]).Nodup) (hpairs : (pairs.map Prod.fst).Nodup) :
    ofLines? (pairLines settings ++ .table [name] :: pairLines pairs) =
      some (.table (settings ++ [(name, .table pairs)])) := by
  obtain ⟨hnodup, -, hdisjoint⟩ := List.nodup_append.1 hsettings
  have hname : name ∉ (valueNodes settings).map Prod.fst := by
    intro hmem
    refine hdisjoint name ?_ name (List.mem_singleton_self name) rfl
    simpa [valueNodes] using hmem
  have hplain : (pairLines settings).foldlM Progress.add {} =
      some ⟨.mk false false (valueNodes settings), []⟩ :=
    Progress.foldlM_pairLines Progress.add_setting hnodup
  have hsection : (pairLines pairs).foldlM Progress.add
      ⟨.mk false false (valueNodes settings ++ [(name, .table .explicit)]), [name]⟩ =
      some ⟨.mk false false (valueNodes settings ++
        [(name, .table (.mk false false (valueNodes pairs)))]), [name]⟩ :=
    Progress.foldlM_pairLines (Progress.add_sectionPair hname) hpairs
  have hfold : (pairLines settings ++ Line.table [name] :: pairLines pairs).foldlM
      Progress.add {} = some ⟨.mk false false (valueNodes settings ++
        [(name, .table (.mk false false (valueNodes pairs)))]), [name]⟩ := by
    rw [List.foldlM_append, hplain]
    simp only [Option.bind_eq_bind, Option.bind_some, List.foldlM_cons,
      Progress.add_header hname, hsection]
  have hfinish := finishEntries_append pairs []
  rw [List.append_nil] at hfinish
  simp [ofLines?, hfold, Draft.finish, finishEntries_append, finishEntries, Node.finish, hfinish]

end Toml

end RelSchema
