import RelSchema.Proofs.JsonTokens

/-!
# Reading written values back

The text in lines of a value reads as the value. Arrays and objects are ended by their bracket, and
what follows a value inside them is a comma or a line end, so that numbers end there too.

Two values have no text of their own: `illFormed`, which is written like null, and a number with a
fraction that is not made of decimal digits. All others are `Faithful`.
-/

namespace RelSchema

namespace Json

/-! ## Blanks and first characters -/

theorem skipBlanks_append {blanks : List Char} (h : ∀ c ∈ blanks, isBlank c = true)
    (cs : List Char) : skipBlanks (blanks ++ cs) = skipBlanks cs :=
  List.dropWhile_append_of_pos h

theorem skipBlanks_newLine (depth : Nat) (cs : List Char) :
    skipBlanks (newLine depth ++ cs) = skipBlanks cs := by
  refine skipBlanks_append (fun c hc => ?_) cs
  obtain rfl | hc := List.mem_cons.1 hc
  · rfl
  · rw [List.eq_of_mem_replicate hc]
    rfl

/-- Blanks in front of a value do not count. -/
theorem value_congr {cs ds : List Char} (h : skipBlanks cs = skipBlanks ds) (steps : Nat) :
    value steps cs = value steps ds := by
  cases steps with
  | zero => simp only [value]
  | succ steps => simp only [value, h]

/-- A value that begins like a number is read as one. -/
theorem value_number {cs cs' rest : List Char} {c : Char} {n : Number}
    (hcs : skipBlanks cs = c :: cs') (hc : c.isDigit = true ∨ c = '-')
    (h : numberText (c :: cs') = some (n, rest)) (steps : Nat) :
    value (steps + 1) cs = some (.number n, rest) := by
  simp only [value, hcs]
  split <;> simp_all

/-- The values that are written as what they are. -/
inductive Faithful : Json → Prop
  | null : Faithful .null
  | bool (b : Bool) : Faithful (.bool b)
  | number {n : Number} (h : ∀ d ∈ n.fraction, d < 10) : Faithful (.number n)
  | string (s : String) : Faithful (.string s)
  | array {elements : List Json} (h : ∀ e ∈ elements, Faithful e) : Faithful (.array elements)
  | object {members : List (String × Json)} (h : ∀ m ∈ members, Faithful m.2) :
      Faithful (.object members)

/-- The value is read back from its text at any depth, whatever ends its text, when the reader may
take more steps than the text has characters. -/
def ReadsBack (j : Json) : Prop :=
  ∀ (depth steps : Nat) (rest : List Char), (prettyAt depth j).length ≤ steps → EndsNumber rest →
    value (steps + 1) (prettyAt depth j ++ rest) = some (j, rest)

/-- The text of a value begins with a character that is neither a blank nor a closing bracket. -/
theorem exists_prettyAt_eq_cons (depth : Nat) (j : Json) :
    ∃ c cs, prettyAt depth j = c :: cs ∧ isBlank c = false ∧ c ≠ ']' := by
  cases j with
  | null => exact ⟨'n', _, rfl, rfl, by decide⟩
  | bool b => cases b <;> exact ⟨_, _, rfl, rfl, by decide⟩
  | number n =>
    obtain ⟨c, cs, htext, hc⟩ := exists_text_eq_cons n
    refine ⟨c, cs, htext, ?_⟩
    obtain hdigit | rfl := hc
    · constructor
      · cases hblank : isBlank c with
        | false => rfl
        | true =>
          simp only [isBlank, Bool.or_eq_true, beq_iff_eq] at hblank
          rcases hblank with ((rfl | rfl) | rfl) | rfl <;> simp at hdigit
      · rintro rfl
        simp at hdigit
    · exact ⟨rfl, by decide⟩
  | string s => exact ⟨'"', _, rfl, rfl, by decide⟩
  | array elements => cases elements <;> exact ⟨'[', _, rfl, rfl, by decide⟩
  | object members =>
    cases members with
    | nil => exact ⟨'\x7b', _, rfl, rfl, by decide⟩
    | cons m members => exact ⟨'\x7b', _, rfl, rfl, by decide⟩
  | illFormed => exact ⟨'n', _, rfl, rfl, by decide⟩

theorem skipBlanks_prettyAt (depth : Nat) (j : Json) (rest : List Char) :
    skipBlanks (prettyAt depth j ++ rest) = prettyAt depth j ++ rest := by
  obtain ⟨c, cs, htext, hc, -⟩ := exists_prettyAt_eq_cons depth j
  simp [htext, skipBlanks, hc]

theorem endsNumber_newLine (depth : Nat) (rest : List Char) : EndsNumber (newLine depth ++ rest) := by
  simp [EndsNumber, newLine]

theorem endsNumber_prettyElements (depth closing : Nat) (elements : List Json) (rest : List Char) :
    EndsNumber (prettyElements depth elements ++ (newLine closing ++ rest)) := by
  cases elements with
  | nil => exact endsNumber_newLine closing rest
  | cons e elements => simp [prettyElements, EndsNumber]

theorem endsNumber_prettyMembers (depth closing : Nat) (members : List (String × Json))
    (rest : List Char) :
    EndsNumber (prettyMembers depth members ++ (newLine closing ++ rest)) := by
  cases members with
  | nil => exact endsNumber_newLine closing rest
  | cons m members => simp [prettyMembers, EndsNumber]

/-- Reading a value with blanks in front of it. -/
theorem ReadsBack.value_eq {j : Json} (h : ReadsBack j) (depth steps : Nat)
    {cs rest : List Char} (hcs : skipBlanks cs = prettyAt depth j ++ rest)
    (hsteps : (prettyAt depth j).length < steps) (hrest : EndsNumber rest) :
    value steps cs = some (j, rest) := by
  obtain ⟨steps, rfl⟩ : ∃ n, steps = n + 1 := ⟨steps - 1, by omega⟩
  rw [← h depth steps rest (Nat.le_of_lt_succ hsteps) hrest]
  exact value_congr (hcs.trans (skipBlanks_prettyAt depth j rest).symm) _

/-! ## Arrays -/

theorem elements_last {steps : Nat} {cs rest after : List Char} {e : Json}
    (he : value steps cs = some (e, rest)) (hrest : skipBlanks rest = ']' :: after) :
    elements (steps + 1) cs = some ([e], after) := by
  simp only [elements, he, hrest]

theorem elements_more {steps : Nat} {cs rest next after : List Char} {e : Json} {es : List Json}
    (he : value steps cs = some (e, rest)) (hrest : skipBlanks rest = ',' :: next)
    (hes : elements steps next = some (es, after)) :
    elements (steps + 1) cs = some (e :: es, after) := by
  simp only [elements, he, hrest, hes, Option.map_some]

/-- The elements of an array up to its closing bracket, with blanks in front of the first. -/
theorem elements_pretty (depth closing : Nat) (after : List Char) {e : Json} {es : List Json}
    (h : ∀ x ∈ e :: es, ReadsBack x) {cs : List Char}
    (hcs : skipBlanks cs =
      prettyAt depth e ++ (prettyElements depth es ++ (newLine closing ++ ']' :: after)))
    {steps : Nat}
    (hsteps : (prettyAt depth e).length + (prettyElements depth es).length < steps) :
    elements (steps + 1) cs = some (e :: es, after) := by
  induction es generalizing e cs steps with
  | nil =>
    have he := (h e List.mem_cons_self).value_eq depth steps hcs (by omega)
      (endsNumber_prettyElements depth closing [] _)
    refine elements_last he ?_
    rw [prettyElements, List.nil_append, skipBlanks_newLine]
    rfl
  | cons next es ih =>
    obtain ⟨steps, rfl⟩ : ∃ n, steps = n + 1 := ⟨steps - 1, by omega⟩
    have he := (h e List.mem_cons_self).value_eq depth (steps + 1) hcs (by omega)
      (endsNumber_prettyElements depth closing (next :: es) _)
    have hmore : elements (steps + 1) (newLine depth ++ (prettyAt depth next ++
        (prettyElements depth es ++ (newLine closing ++ ']' :: after)))) =
        some (next :: es, after) := by
      refine ih (fun x hx => h x (List.mem_cons_of_mem e hx)) ?_ ?_
      · rw [skipBlanks_newLine, skipBlanks_prettyAt]
      · simp only [prettyElements, List.length_cons, List.length_append] at hsteps
        omega
    refine elements_more he ?_ hmore
    simp [prettyElements, skipBlanks, isBlank]

/-- A bracket that no closing one follows opens the elements of an array. -/
theorem value_array {cs inner rest : List Char} {c : Char} {es : List Json} {steps : Nat}
    (hcs : skipBlanks cs = '[' :: inner) (hinner : (skipBlanks inner).head? = some c)
    (hc : c ≠ ']') (hes : elements steps (skipBlanks inner) = some (es, rest)) :
    value (steps + 1) cs = some (.array es, rest) := by
  simp only [value, hcs]
  split
  · rename_i hclosing
    rw [hclosing] at hinner
    exact absurd (Option.some.inj hinner).symm hc
  · rw [hes, Option.map_some]

theorem readsBack_array {es : List Json} (h : ∀ e ∈ es, ReadsBack e) : ReadsBack (.array es) := by
  intro depth steps rest hsteps _
  cases es with
  | nil => simp [prettyAt, value, skipBlanks, isBlank]
  | cons e es =>
    simp only [prettyAt, List.length_cons, List.length_append] at hsteps
    obtain ⟨steps, rfl⟩ : ∃ n, steps = n + 1 := ⟨steps - 1, by omega⟩
    have htext : prettyAt depth (.array (e :: es)) ++ rest = '[' :: (newLine (depth + 1) ++
        (prettyAt (depth + 1) e ++ (prettyElements (depth + 1) es ++
          (newLine depth ++ ']' :: rest)))) := by
      simp [prettyAt]
    obtain ⟨c, cs, hfirst, -, hc⟩ := exists_prettyAt_eq_cons (depth + 1) e
    rw [htext]
    refine value_array (c := c) rfl ?_ hc ?_
    · rw [skipBlanks_newLine, skipBlanks_prettyAt, hfirst]
      rfl
    · refine elements_pretty (depth + 1) depth rest h ?_ (by omega)
      rw [skipBlanks_newLine, skipBlanks_prettyAt, skipBlanks_prettyAt]

/-! ## Objects -/

theorem quote_append (s : String) (rest : List Char) :
    quote s ++ rest = '"' :: (s.toList.flatMap escapeChar ++ '"' :: rest) := by
  simp [quote]

theorem skipBlanks_blank_prettyAt (depth : Nat) (j : Json) (rest : List Char) :
    skipBlanks (' ' :: (prettyAt depth j ++ rest)) = prettyAt depth j ++ rest :=
  skipBlanks_prettyAt depth j rest

theorem members_last {steps : Nat} {cs quoted rest inner behind after : List Char}
    {key : Option String} {j : Json} (hcs : skipBlanks cs = '"' :: quoted)
    (hkey : stringText quoted = some (key, rest)) (hrest : skipBlanks rest = ':' :: inner)
    (hj : value steps inner = some (j, behind)) (hbehind : skipBlanks behind = '\x7d' :: after) :
    members (steps + 1) cs = some ([(key, j)], after) := by
  simp only [members, hcs, hkey, hrest, hj, hbehind]

theorem members_more {steps : Nat} {cs quoted rest inner behind next after : List Char}
    {key : Option String} {j : Json} {ms : List (Option String × Json)}
    (hcs : skipBlanks cs = '"' :: quoted) (hkey : stringText quoted = some (key, rest))
    (hrest : skipBlanks rest = ':' :: inner) (hj : value steps inner = some (j, behind))
    (hbehind : skipBlanks behind = ',' :: next) (hms : members steps next = some (ms, after)) :
    members (steps + 1) cs = some ((key, j) :: ms, after) := by
  simp only [members, hcs, hkey, hrest, hj, hbehind, hms, Option.map_some]

/-- The members of an object up to its closing brace, with blanks in front of the first. -/
theorem members_pretty (depth closing : Nat) (after : List Char) {key : String} {j : Json}
    {ms : List (String × Json)} (h : ∀ m ∈ (key, j) :: ms, ReadsBack m.2) {cs : List Char}
    (hcs : skipBlanks cs = quote key ++ (':' :: ' ' :: (prettyAt depth j ++
      (prettyMembers depth ms ++ (newLine closing ++ '\x7d' :: after)))))
    {steps : Nat}
    (hsteps : (prettyAt depth j).length + (prettyMembers depth ms).length < steps) :
    members (steps + 1) cs = some (((key, j) :: ms).map (Prod.map some id), after) := by
  induction ms generalizing key j cs steps with
  | nil =>
    have hj : ReadsBack j := h (key, j) List.mem_cons_self
    have hvalue := hj.value_eq depth steps (skipBlanks_blank_prettyAt depth j _) (by omega)
      (endsNumber_prettyMembers depth closing [] ('\x7d' :: after))
    refine members_last (hcs.trans (quote_append key _)) (stringText_escaped key _) rfl hvalue ?_
    rw [prettyMembers, List.nil_append, skipBlanks_newLine]
    rfl
  | cons next ms ih =>
    obtain ⟨steps, rfl⟩ : ∃ n, steps = n + 1 := ⟨steps - 1, by omega⟩
    obtain ⟨nextKey, nextValue⟩ := next
    have hj : ReadsBack j := h (key, j) List.mem_cons_self
    have hvalue := hj.value_eq depth (steps + 1) (skipBlanks_blank_prettyAt depth j _) (by omega)
      (endsNumber_prettyMembers depth closing ((nextKey, nextValue) :: ms) ('\x7d' :: after))
    have hmore : members (steps + 1) (newLine depth ++ (quote nextKey ++ (':' :: ' ' ::
        (prettyAt depth nextValue ++
          (prettyMembers depth ms ++ (newLine closing ++ '\x7d' :: after)))))) =
        some (((nextKey, nextValue) :: ms).map (Prod.map some id), after) := by
      refine ih (fun m hm => h m (List.mem_cons_of_mem _ hm)) ?_ ?_
      · rw [skipBlanks_newLine]
        rfl
      · simp only [prettyMembers, List.length_cons, List.length_append] at hsteps
        omega
    refine members_more (hcs.trans (quote_append key _)) (stringText_escaped key _) rfl hvalue ?_
      hmore
    simp [prettyMembers, skipBlanks, isBlank]

/-- When every key names a text, the members make the object. -/
theorem ofMembers_map_some (ms : List (String × Json)) :
    ofMembers (ms.map (Prod.map some id)) = .object ms := by
  unfold ofMembers
  rw [mapM_map_eq_some (Prod.map some id) ?_]
  exact fun _ _ => rfl

/-- A brace that no closing one follows opens the members of an object. -/
theorem value_object {cs inner rest : List Char} {c : Char} {ms : List (String × Json)}
    {steps : Nat} (hcs : skipBlanks cs = '\x7b' :: inner)
    (hinner : (skipBlanks inner).head? = some c) (hc : c ≠ '\x7d')
    (hms : members steps (skipBlanks inner) = some (ms.map (Prod.map some id), rest)) :
    value (steps + 1) cs = some (.object ms, rest) := by
  simp only [value, hcs]
  split
  · rename_i hclosing
    rw [hclosing] at hinner
    exact absurd (Option.some.inj hinner).symm hc
  · rw [hms, Option.map_some, ofMembers_map_some]

theorem readsBack_object {ms : List (String × Json)} (h : ∀ m ∈ ms, ReadsBack m.2) :
    ReadsBack (.object ms) := by
  intro depth steps rest hsteps _
  cases ms with
  | nil => simp [prettyAt, value, skipBlanks, isBlank]
  | cons m ms =>
    obtain ⟨key, j⟩ := m
    simp only [prettyAt, List.length_cons, List.length_append] at hsteps
    obtain ⟨steps, rfl⟩ : ∃ n, steps = n + 1 := ⟨steps - 1, by omega⟩
    have htext : prettyAt depth (.object ((key, j) :: ms)) ++ rest = '\x7b' ::
        (newLine (depth + 1) ++ (quote key ++ (':' :: ' ' :: (prettyAt (depth + 1) j ++
          (prettyMembers (depth + 1) ms ++ (newLine depth ++ '\x7d' :: rest)))))) := by
      simp [prettyAt]
    rw [htext]
    refine value_object (c := '"') rfl ?_ (by decide) ?_
    · rw [skipBlanks_newLine]
      rfl
    · refine members_pretty (depth + 1) depth rest h ?_ (by omega)
      rw [skipBlanks_newLine]
      rfl

/-! ## Whole texts -/

theorem readsBack_bool (b : Bool) : ReadsBack (.bool b) := by
  intro depth steps rest hsteps _
  cases b <;> simp [prettyAt, boolText, value, skipBlanks, isBlank]

theorem readsBack_number {n : Number} (h : ∀ d ∈ n.fraction, d < 10) : ReadsBack (.number n) := by
  intro depth steps rest hsteps hrest
  obtain ⟨c, cs, htext, hc⟩ := exists_text_eq_cons n
  have hnumber := numberText_text h hrest
  have hskip := skipBlanks_prettyAt depth (.number n) rest
  simp only [prettyAt, htext, List.cons_append] at hnumber hskip ⊢
  exact value_number hskip hc hnumber steps

theorem readsBack_string (s : String) : ReadsBack (.string s) := by
  intro depth steps rest hsteps _
  rw [prettyAt, quote_append]
  simp [value, skipBlanks, isBlank, stringText_escaped]

theorem Faithful.readsBack {j : Json} (h : Faithful j) : ReadsBack j := by
  induction h with
  | null =>
    intro depth steps rest hsteps _
    simp [prettyAt, value, skipBlanks, isBlank]
  | bool b => exact readsBack_bool b
  | number h => exact readsBack_number h
  | string s => exact readsBack_string s
  | array _ ih => exact readsBack_array ih
  | object _ ih => exact readsBack_object ih

/-- The text in lines of a value is read as the value. -/
theorem parse?_pretty {j : Json} (h : Faithful j) : parse? j.pretty = some j := by
  have hvalue := h.readsBack 0 (2 * (prettyAt 0 j).length + 1) [] (by omega) endsNumber_nil
  rw [List.append_nil] at hvalue
  simp [parse?, pretty, hvalue, skipBlanks]

end Json

end RelSchema
