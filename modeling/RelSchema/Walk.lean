import RelSchema.SchemaError

/-!
# Walks that stop at the first error

Several operations visit a list of things and change a state at each. When a visit is refused, the
walk stops there; what it changed before stays.
-/

namespace RelSchema

/-- The state that a walk reached, and the error that stopped it, if one did. -/
structure Walk (σ : Type) where
  state : σ
  error : Option SchemaError := none

namespace Walk

variable {σ α : Type}

/-- Goes on from where the walk ended, unless it was stopped. -/
def andThen (w : Walk σ) (next : σ → Walk σ) : Walk σ :=
  match w.error with
  | none => next w.state
  | some _ => w

/-- Visits the elements in order, as long as no visit is refused. -/
def along (visit : σ → α → Walk σ) (state : σ) : List α → Walk σ
  | [] => { state }
  | a :: rest => (visit state a).andThen fun next => along visit next rest

theorem andThen_assoc (w : Walk σ) (f g : σ → Walk σ) :
    (w.andThen f).andThen g = w.andThen fun s => (f s).andThen g := by
  obtain ⟨s, e⟩ := w
  cases e <;> rfl

@[simp] theorem andThen_done (w : Walk σ) : (w.andThen fun s => { state := s }) = w := by
  obtain ⟨s, e⟩ := w
  cases e <;> rfl

@[simp] theorem along_nil (visit : σ → α → Walk σ) (state : σ) :
    along visit state [] = { state } := rfl

theorem along_cons (visit : σ → α → Walk σ) (state : σ) (a : α) (rest : List α) :
    along visit state (a :: rest) =
      (visit state a).andThen fun next => along visit next rest := rfl

/-- A walk over two lists is a walk over the first and, unless it stopped, one over the second. -/
theorem along_append (visit : σ → α → Walk σ) (state : σ) (xs ys : List α) :
    along visit state (xs ++ ys) =
      (along visit state xs).andThen fun next => along visit next ys := by
  induction xs generalizing state with
  | nil => rfl
  | cons x xs ih => simp only [List.cons_append, along_cons, ih, andThen_assoc]

/-- Behind the first visit that is refused a walk does nothing. -/
theorem along_of_refused {visit : σ → α → Walk σ} {state : σ} {before after : List α} {x : α}
    {e : SchemaError}
    (hbefore : (along visit state before).error = none)
    (hx : (visit (along visit state before).state x).error = some e) :
    along visit state (before ++ x :: after) = visit (along visit state before).state x := by
  rw [along_append, andThen, hbefore]
  dsimp only
  rw [along_cons, andThen, hx]

/-- What every visit keeps, the walk keeps, also when it is stopped. -/
theorem along_invariant {visit : σ → α → Walk σ} {P : σ → Prop} {xs : List α}
    (step : ∀ s, ∀ x ∈ xs, P s → P (visit s x).state) {state : σ} (h : P state) :
    P (along visit state xs).state := by
  induction xs generalizing state with
  | nil => exact h
  | cons x xs ih =>
    have hx := step state x (List.mem_cons_self ..) h
    rw [along_cons, andThen]
    split
    · exact ih (fun s y hy => step s y (List.mem_cons_of_mem _ hy)) hx
    · exact hx

theorem error_andThen_eq_none_iff {w : Walk σ} {next : σ → Walk σ} :
    (w.andThen next).error = none ↔ w.error = none ∧ (next w.state).error = none := by
  obtain ⟨s, e⟩ := w
  cases e <;> simp [andThen]

theorem state_andThen_of_error_eq_none {w : Walk σ} {next : σ → Walk σ} (h : w.error = none) :
    (w.andThen next).state = (next w.state).state := by
  rw [andThen, h]

/-- When every visit acts on what a view shows of the state, a walk to the end is a fold there. How
it acts may be known only of states with a property that visits keep. -/
theorem view_along_of_keep {β : Type} {visit : σ → α → Walk σ} {P : σ → Prop} {xs : List α}
    (view : σ → β) (f : β → α → β) (keep : ∀ s x, P s → P (visit s x).state)
    (step : ∀ s, ∀ x ∈ xs, P s → (visit s x).error = none →
      view (visit s x).state = f (view s) x)
    {state : σ} (hP : P state) (h : (along visit state xs).error = none) :
    view (along visit state xs).state = xs.foldl f (view state) := by
  induction xs generalizing state with
  | nil => rfl
  | cons x xs ih =>
    obtain ⟨hx, hrest⟩ := error_andThen_eq_none_iff.1 h
    rw [along_cons, state_andThen_of_error_eq_none hx,
      ih (fun s y hy => step s y (List.mem_cons_of_mem _ hy)) (keep state x hP) hrest,
      step state x List.mem_cons_self hP hx, List.foldl_cons]

theorem view_along {β : Type} {visit : σ → α → Walk σ} (view : σ → β) (f : β → α → β)
    (step : ∀ s x, (visit s x).error = none → view (visit s x).state = f (view s) x)
    {xs : List α} {state : σ} (h : (along visit state xs).error = none) :
    view (along visit state xs).state = xs.foldl f (view state) :=
  view_along_of_keep (P := fun _ => True) view f (fun _ _ _ => trivial)
    (fun s x _ _ => step s x) trivial h

/-- When it depends on the element whether and why a visit is refused, the first element that is
refused ends the walk. -/
theorem error_along {visit : σ → α → Walk σ} {P : σ → Prop} {refusal : α → Option SchemaError}
    {xs : List α} (keep : ∀ s x, P s → P (visit s x).state)
    (step : ∀ s, ∀ x ∈ xs, P s → (visit s x).error = refusal x) {state : σ} (h : P state) :
    (along visit state xs).error = xs.findSome? refusal := by
  induction xs generalizing state with
  | nil => rfl
  | cons x xs ih =>
    rw [along_cons, andThen, List.findSome?_cons, ← step state x List.mem_cons_self h]
    cases herror : (visit state x).error with
    | none => exact ih (fun s y hy => step s y (List.mem_cons_of_mem _ hy)) (keep state x h)
    | some e => exact herror

section Notes

variable {ν : Type} {visit : σ → α → Walk σ} {P : σ → Prop} {note : α → List ν} {xs : List α}

/-- When every visit writes its notes at the end of a list that a view shows, a walk to the end
writes the notes of all elements. -/
theorem view_along_append {β : Type} (view : σ → List β) (word : ν → β)
    (keep : ∀ s x, P s → P (visit s x).state)
    (step : ∀ s, ∀ x ∈ xs, P s → (visit s x).error = none →
      view (visit s x).state = view s ++ (note x).map word)
    {state : σ} (hP : P state) (h : (along visit state xs).error = none) :
    view (along visit state xs).state = view state ++ (xs.flatMap note).map word := by
  have hfold : view (along visit state xs).state =
      xs.foldl (fun words x => words ++ (note x).map word) (view state) :=
    view_along_of_keep view _ keep step hP h
  rw [hfold, List.foldl_append_eq_append, ← List.flatMap_def, ← List.map_flatMap]

/-- When every visit is refused at its first note, a walk is refused at the first of all notes. -/
theorem error_along_flatMap (word : ν → SchemaError) (keep : ∀ s x, P s → P (visit s x).state)
    (step : ∀ s, ∀ x ∈ xs, P s → (visit s x).error = (note x).head?.map word) {state : σ}
    (h : P state) : (along visit state xs).error = (xs.flatMap note).head?.map word := by
  rw [error_along keep step h, List.head?_flatMap, List.map_findSome?]
  rfl

end Notes

/-- Two ways to visit that agree on all states on the way make the same walk. -/
theorem along_congr {visit visit' : σ → α → Walk σ} {P : σ → Prop} {xs : List α}
    (keep : ∀ s x, P s → P (visit s x).state)
    (step : ∀ s, ∀ x ∈ xs, P s → visit s x = visit' s x) {state : σ} (h : P state) :
    along visit state xs = along visit' state xs := by
  induction xs generalizing state with
  | nil => rfl
  | cons x xs ih =>
    have hrest := ih (fun s y hy => step s y (List.mem_cons_of_mem _ hy)) (keep state x h)
    rw [along_cons, along_cons, ← step state x List.mem_cons_self h, andThen, andThen, hrest]

/-- A walk gets to the end when no visit on the way is refused. -/
theorem error_along_eq_none_iff {visit : σ → α → Walk σ} {P : σ → Prop} {good : α → Prop}
    {xs : List α} (keep : ∀ s x, P s → P (visit s x).state)
    (step : ∀ s, ∀ x ∈ xs, P s → ((visit s x).error = none ↔ good x)) {state : σ} (h : P state) :
    (along visit state xs).error = none ↔ ∀ x ∈ xs, good x := by
  induction xs generalizing state with
  | nil => simp
  | cons x xs ih =>
    rw [along_cons, error_andThen_eq_none_iff, step state x List.mem_cons_self h,
      ih (fun s y hy => step s y (List.mem_cons_of_mem _ hy)) (keep state x h), List.forall_mem_cons]

end Walk

end RelSchema
