namespace ReplyCapture

theorem bind_eq_ok_iff {ε α β : Type} {step : Except ε α} {next : α → Except ε β} {result : β} :
    (step >>= next) = .ok result ↔ ∃ value, step = .ok value ∧ next value = .ok result := by
  cases step <;> simp [bind, Except.bind]

theorem bind_eq_error_iff {ε α β : Type} {step : Except ε α} {next : α → Except ε β} {error : ε} :
    (step >>= next) = .error error ↔
      step = .error error ∨ ∃ value, step = .ok value ∧ next value = .error error := by
  cases step <;> simp [bind, Except.bind]

/-- Past a guard, the guard's condition is known not to hold. -/
theorem guard_eq_ok_iff {ε α β : Type} {condition : Prop} [Decidable condition] {error : ε}
    {skipped : α → Except ε β} {next : Except ε β} {result : β} :
    (if condition then throw error >>= skipped else next) = .ok result ↔ ¬ condition ∧ next = .ok result := by
  split
  · next hcondition => simp [hcondition, bind, Except.bind, throw, throwThe, MonadExceptOf.throw]
  · next hcondition => simp [hcondition]

theorem guard_eq_error_iff {ε α β : Type} {condition : Prop} [Decidable condition] {error cause : ε}
    {skipped : α → Except ε β} {next : Except ε β} :
    (if condition then throw error >>= skipped else next) = .error cause ↔
      condition ∧ error = cause ∨ ¬ condition ∧ next = .error cause := by
  split
  · next hcondition => simp [hcondition, bind, Except.bind, throw, throwThe, MonadExceptOf.throw]
  · next hcondition => simp [hcondition]

theorem pure_eq_ok_iff {ε α : Type} {value result : α} :
    (pure value : Except ε α) = .ok result ↔ value = result := by
  simp [pure, Except.pure]

theorem pure_ne_error {ε α : Type} {value : α} {error : ε} : (pure value : Except ε α) ≠ .error error := by
  simp [pure, Except.pure]

theorem exists_bind_eq_ok_iff {ε α β : Type} {step : Except ε α} {next : α → Except ε β} :
    (∃ result, (step >>= next) = .ok result) ↔ ∃ value, step = .ok value ∧ ∃ result, next value = .ok result := by
  simp only [bind_eq_ok_iff]
  constructor
  · intro hresult
    obtain ⟨result, value, hstep, hnext⟩ := hresult
    exact ⟨value, hstep, result, hnext⟩
  · intro hvalue
    obtain ⟨value, hstep, result, hnext⟩ := hvalue
    exact ⟨result, value, hstep, hnext⟩

theorem exists_pure_eq_ok {ε α : Type} (value : α) : ∃ result, (pure value : Except ε α) = .ok result :=
  ⟨value, rfl⟩

/-- What is made of a value at the end of a step fails only where the step does. -/
theorem bind_pure_eq_error_iff {ε α β : Type} {step : Except ε α} {change : α → β} {error : ε} :
    (step >>= fun value => pure (change value)) = .error error ↔ step = .error error := by
  cases step <;> simp [bind, Except.bind, pure, Except.pure]

theorem exists_bind_pure_eq_ok_iff {ε α β : Type} {step : Except ε α} {change : α → β} :
    (∃ result, (step >>= fun value => pure (change value)) = .ok result) ↔ ∃ value, step = .ok value := by
  cases step <;> simp [bind, Except.bind, pure, Except.pure]

theorem map_eq_ok_iff {ε α β : Type} {step : Except ε α} {change : α → β} {result : β} :
    step.map change = .ok result ↔ ∃ value, step = .ok value ∧ change value = result := by
  cases step <;> simp [Except.map]

theorem map_eq_error_iff {ε α β : Type} {step : Except ε α} {change : α → β} {error : ε} :
    step.map change = .error error ↔ step = .error error := by
  cases step <;> simp [Except.map]

theorem mapError_eq_ok_iff {ε ε' α : Type} {step : Except ε α} {change : ε → ε'} {result : α} :
    step.mapError change = .ok result ↔ step = .ok result := by
  cases step with
  | error cause => exact ⟨nofun, nofun⟩
  | ok value =>
    change Except.ok value = Except.ok result ↔ _
    rw [Except.ok.injEq, Except.ok.injEq]

/-- A changed error is what the change makes of the error before. -/
theorem mapError_eq_error_iff {ε ε' α : Type} {step : Except ε α} {change : ε → ε'} {error : ε'} :
    step.mapError change = .error error ↔ ∃ cause, step = .error cause ∧ change cause = error := by
  cases step with
  | error cause =>
    constructor
    · intro hchanged
      exact ⟨cause, rfl, Except.error.inj hchanged⟩
    · intro hcause
      obtain ⟨_, hsame, rfl⟩ := hcause
      obtain rfl := Except.error.inj hsame
      rfl
  | ok value =>
    constructor
    · intro hchanged
      cases hchanged
    · intro hcause
      obtain ⟨_, hnever, _⟩ := hcause
      cases hnever

/-- A step that succeeds where its items can be read succeeds on a list of them. -/
theorem mapM_eq_ok_of_map {ε ε' α β γ : Type} {read : α → Except ε β} {step : α → Except ε' γ} {change : β → γ}
    (hstep : ∀ item value, read item = .ok value → step item = .ok (change value)) {items : List α} {values : List β}
    (hread : items.map read = values.map .ok) : items.mapM step = .ok (values.map change) := by
  induction items generalizing values with
  | nil =>
    obtain rfl := List.map_eq_nil_iff.mp hread.symm
    rfl
  | cons item items ih =>
    cases values with
    | nil => cases hread
    | cons value values =>
      obtain ⟨hfirst, hrest⟩ := List.cons.inj hread
      rw [List.mapM_cons, hstep item value hfirst, ih hrest]
      rfl

/-- The first of some items on which a step fails, and how. -/
inductive FirstFails {ε α β : Type} (step : α → Except ε β) : List α → ε → Prop
  | here {item : α} {items : List α} {error : ε} (hfails : step item = .error error) :
    FirstFails step (item :: items) error
  | later {item : α} {value : β} {items : List α} {error : ε} (hpasses : step item = .ok value)
    (hlater : FirstFails step items error) : FirstFails step (item :: items) error

section FirstFails

variable {ε α β : Type} {step : α → Except ε β} {items : List α} {error : ε}

theorem not_firstFails_nil : ¬ FirstFails step [] error :=
  nofun

theorem firstFails_cons_iff {item : α} :
    FirstFails step (item :: items) error ↔
      step item = .error error ∨ ∃ value, step item = .ok value ∧ FirstFails step items error := by
  constructor
  · intro hfirst
    cases hfirst with
    | here hfails => exact .inl hfails
    | later hpasses hlater => exact .inr ⟨_, hpasses, hlater⟩
  · intro hparts
    obtain hfails | ⟨value, hpasses, hlater⟩ := hparts
    · exact .here hfails
    · exact .later hpasses hlater

/-- A step on each of some items fails as it does on the first on which it fails. -/
theorem mapM_eq_error_iff : items.mapM step = .error error ↔ FirstFails step items error := by
  induction items with
  | nil => simp [not_firstFails_nil, pure_ne_error]
  | cons item items ih =>
    simp only [List.mapM_cons, bind_eq_error_iff, pure_ne_error, and_false, exists_false, or_false, ih,
      firstFails_cons_iff]

/-- The first to fail is among the items in front, or all of these pass. -/
theorem firstFails_append_iff {front back : List α} :
    FirstFails step (front ++ back) error ↔
      FirstFails step front error ∨ ∃ values, front.mapM step = .ok values ∧ FirstFails step back error := by
  rw [← mapM_eq_error_iff, ← mapM_eq_error_iff, ← mapM_eq_error_iff, List.mapM_append, bind_eq_error_iff]
  simp only [bind_pure_eq_error_iff]

/-- A step passes all of some items or fails on a first one. -/
theorem forall_passes_or_firstFails (step : α → Except ε β) (items : List α) :
    (∀ item ∈ items, ∃ value, step item = .ok value) ∨ ∃ error, FirstFails step items error := by
  induction items with
  | nil => exact .inl nofun
  | cons item items ih =>
    cases hstep : step item with
    | error error => exact .inr ⟨error, .here hstep⟩
    | ok value =>
      obtain hpasses | ⟨error, hfirst⟩ := ih
      · exact .inl (List.forall_mem_cons.mpr ⟨⟨value, hstep⟩, hpasses⟩)
      · exact .inr ⟨error, .later hstep hfirst⟩

/-- A step that only changes what another one gives fails on the same items. -/
theorem firstFails_iff_of_changes {ε' γ : Type} {read : α → Except ε' γ} {wrap : ε' → ε} {change : γ → β}
    (hstep : ∀ item, step item = ((read item).mapError wrap).map change) :
    FirstFails step items error ↔ ∃ cause, FirstFails read items cause ∧ wrap cause = error := by
  constructor
  · intro hfirst
    induction hfirst with
    | here hfails =>
      rw [hstep, map_eq_error_iff, mapError_eq_error_iff] at hfails
      obtain ⟨cause, hcause, rfl⟩ := hfails
      exact ⟨cause, .here hcause, rfl⟩
    | later hpasses _ ih =>
      rw [hstep, map_eq_ok_iff] at hpasses
      obtain ⟨value, hvalue, _⟩ := hpasses
      obtain ⟨cause, hfirst, hwrap⟩ := ih
      exact ⟨cause, .later (mapError_eq_ok_iff.mp hvalue) hfirst, hwrap⟩
  · intro hcause
    obtain ⟨cause, hfirst, rfl⟩ := hcause
    induction hfirst with
    | here hfails =>
      refine .here ?_
      rw [hstep, hfails]
      rfl
    | @later item value _ _ hpasses _ ih =>
      have hchanged : step item = .ok (change value) := by
        rw [hstep, hpasses]
        rfl
      exact .later hchanged ih

theorem FirstFails.exists_mem (hfirst : FirstFails step items error) : ∃ item ∈ items, step item = .error error := by
  induction hfirst with
  | here hfails => exact ⟨_, List.mem_cons_self, hfails⟩
  | later _ _ ih =>
    obtain ⟨item, hitem, hfails⟩ := ih
    exact ⟨item, List.mem_cons_of_mem _ hitem, hfails⟩

/-- What fails only on the first of some items that fails succeeds where all of them pass. -/
theorem exists_ok_iff_of_firstFails {ε' γ : Type} {whole : Except ε' γ} {wrap : ε → ε'}
    (hwhole : ∀ cause, whole = .error cause ↔ ∃ error, FirstFails step items error ∧ wrap error = cause) :
    (∃ result, whole = .ok result) ↔ ∀ item ∈ items, ∃ value, step item = .ok value := by
  constructor
  · intro hresult
    obtain ⟨result, hresult⟩ := hresult
    obtain hpasses | ⟨error, hfirst⟩ := forall_passes_or_firstFails step items
    · exact hpasses
    · cases hresult.symm.trans ((hwhole _).mpr ⟨error, hfirst, rfl⟩)
  · intro hpasses
    cases hresult : whole with
    | ok result => exact ⟨result, rfl⟩
    | error cause =>
      obtain ⟨error, hfirst, _⟩ := (hwhole cause).mp hresult
      obtain ⟨item, hitem, hfails⟩ := hfirst.exists_mem
      obtain ⟨value, hvalue⟩ := hpasses item hitem
      cases hvalue.symm.trans hfails

end FirstFails

end ReplyCapture
