import Mathlib.Logic.Basic

/-! Computations that end in a result, taken apart where they were put together. -/
namespace TextGrammar

variable {ε ε' α β : Type}

theorem bind_eq_ok {x : Except ε α} {f : α → Except ε β} {b : β} :
    x >>= f = .ok b ↔ ∃ a, x = .ok a ∧ f a = .ok b := by
  cases x with
  | error e => simp [bind, Except.bind]
  | ok a => simp [bind, Except.bind]

theorem bind_eq_error {x : Except ε α} {f : α → Except ε β} {e : ε} :
    x >>= f = .error e ↔ x = .error e ∨ ∃ a, x = .ok a ∧ f a = .error e := by
  cases x with
  | error e => simp [bind, Except.bind]
  | ok a => simp [bind, Except.bind]

theorem pure_eq_ok {a b : α} : (pure a : Except ε α) = .ok b ↔ a = b := by
  simp [pure, Except.pure]

theorem map_eq_ok {f : α → β} {x : Except ε α} {b : β} :
    f <$> x = .ok b ↔ ∃ a, x = .ok a ∧ f a = b := by
  cases x with
  | error e => simp [Functor.map, Except.map]
  | ok a => simp [Functor.map, Except.map]

theorem map_eq_error {f : α → β} {x : Except ε α} {e : ε} : f <$> x = .error e ↔ x = .error e := by
  cases x with
  | error e => simp [Functor.map, Except.map]
  | ok a => simp [Functor.map, Except.map]

theorem mapError_eq_ok {f : ε → ε'} {x : Except ε α} {a : α} :
    x.mapError f = .ok a ↔ x = .ok a := by
  cases x with
  | error e =>
    change Except.error (f e) = .ok a ↔ Except.error e = .ok a
    simp
  | ok b =>
    change Except.ok b = .ok a ↔ Except.ok b = .ok a
    simp

theorem mapError_eq_error {f : ε → ε'} {x : Except ε α} {e : ε'} :
    x.mapError f = .error e ↔ ∃ fault, x = .error fault ∧ f fault = e := by
  cases x with
  | error fault =>
    change Except.error (f fault) = .error e ↔ ∃ other, Except.error fault = .error other ∧ f other = e
    simp
  | ok a =>
    change Except.ok a = .error e ↔ ∃ other, Except.ok a = .error other ∧ f other = e
    simp

theorem eq_ok_of_toOption {x : Except ε α} {a : α} (h : x.toOption = some a) : x = .ok a := by
  cases x with
  | error e => cases h
  | ok b =>
    cases h
    rfl

theorem mapM_cons_eq_ok {f : α → Except ε β} {a : α} {rest : List α} {bs : List β} :
    (a :: rest).mapM f = .ok bs ↔
      ∃ b others, f a = .ok b ∧ rest.mapM f = .ok others ∧ bs = b :: others := by
  rw [List.mapM_cons, bind_eq_ok]
  constructor
  · rintro ⟨b, hb, h⟩
    obtain ⟨others, hothers, h⟩ := bind_eq_ok.1 h
    exact ⟨b, others, hb, hothers, (pure_eq_ok.1 h).symm⟩
  · rintro ⟨b, others, hb, hothers, rfl⟩
    exact ⟨b, hb, bind_eq_ok.2 ⟨others, hothers, rfl⟩⟩

theorem mapM_append_eq_ok {f : α → Except ε β} {first second : List α} {bs : List β} :
    (first ++ second).mapM f = .ok bs ↔
      ∃ bs₁ bs₂, first.mapM f = .ok bs₁ ∧ second.mapM f = .ok bs₂ ∧ bs = bs₁ ++ bs₂ := by
  rw [List.mapM_append, bind_eq_ok]
  constructor
  · rintro ⟨bs₁, hfirst, h⟩
    obtain ⟨bs₂, hsecond, h⟩ := bind_eq_ok.1 h
    exact ⟨bs₁, bs₂, hfirst, hsecond, (pure_eq_ok.1 h).symm⟩
  · rintro ⟨bs₁, bs₂, hfirst, hsecond, rfl⟩
    exact ⟨bs₁, hfirst, bind_eq_ok.2 ⟨bs₂, hsecond, rfl⟩⟩

theorem mapM_eq_ok {f : α → Except ε β} {as : List α} {bs : List β} (h : as.mapM f = .ok bs) :
    bs.length = as.length ∧ ∀ b ∈ bs, ∃ a ∈ as, f a = .ok b := by
  induction as generalizing bs with
  | nil =>
    rw [List.mapM_nil] at h
    simp [← pure_eq_ok.1 h]
  | cons a as ih =>
    obtain ⟨b, others, hb, ho, rfl⟩ := mapM_cons_eq_ok.1 h
    obtain ⟨hlen, hmem⟩ := ih ho
    refine ⟨by simp [hlen], ?_⟩
    intro c hc
    rcases List.mem_cons.1 hc with rfl | hc
    · exact ⟨a, List.mem_cons_self, hb⟩
    · obtain ⟨a', ha', he⟩ := hmem c hc
      exact ⟨a', List.mem_cons_of_mem _ ha', he⟩

theorem exists_mapM_eq_ok {f : α → Except ε β} {as : List α} (h : ∀ a ∈ as, ∃ b, f a = .ok b) :
    ∃ bs, as.mapM f = .ok bs := by
  induction as with
  | nil => exact ⟨[], by rw [List.mapM_nil]; rfl⟩
  | cons a as ih =>
    obtain ⟨b, hb⟩ := h a List.mem_cons_self
    obtain ⟨bs, hbs⟩ := ih fun a ha => h a (List.mem_cons_of_mem _ ha)
    exact ⟨b :: bs, mapM_cons_eq_ok.2 ⟨b, bs, hb, hbs, rfl⟩⟩

theorem map_eq_of_mapM {f : α → Except ε β} {as : List α} {bs : List β} (h : as.mapM f = .ok bs) :
    as.map f = bs.map .ok := by
  induction as generalizing bs with
  | nil =>
    rw [List.mapM_nil] at h
    simp [← pure_eq_ok.1 h]
  | cons a as ih =>
    obtain ⟨b, others, hb, ho, rfl⟩ := mapM_cons_eq_ok.1 h
    rw [List.map_cons, List.map_cons, hb, ih ho]

theorem mapM_take {f : α → Except ε β} {as : List α} {bs : List β} (h : as.mapM f = .ok bs)
    (count : Nat) : (as.take count).mapM f = .ok (bs.take count) := by
  induction as generalizing bs count with
  | nil =>
    rw [List.mapM_nil] at h
    simp [← pure_eq_ok.1 h, pure, Except.pure]
  | cons a as ih =>
    obtain ⟨b, others, hb, ho, rfl⟩ := mapM_cons_eq_ok.1 h
    cases count with
    | zero => rfl
    | succ count => exact mapM_cons_eq_ok.2 ⟨b, others.take count, hb, ih ho count, rfl⟩

theorem mapM_range_succ (f : Nat → Except ε β) (count : Nat) :
    (List.range (count + 1)).mapM f = do
      let bs ← (List.range count).mapM f
      return bs ++ [← f count] := by
  rw [List.range_succ, List.mapM_append]
  refine bind_congr fun bs => ?_
  rw [List.mapM_cons, List.mapM_nil]
  cases f count with
  | error e => rfl
  | ok b => rfl

/-- Results that are asked for one after the other are there if each of them is. -/
theorem mapM_range_eq_ok {f : Nat → Except ε β} {count : Nat} {bs : List β} :
    (List.range count).mapM f = .ok bs ↔
      bs.length = count ∧ ∀ i (h : i < bs.length), f i = .ok bs[i] := by
  induction count generalizing bs with
  | zero =>
    rw [List.range_zero, List.mapM_nil, pure_eq_ok]
    constructor
    · rintro rfl
      exact ⟨rfl, fun i hi => absurd hi (Nat.not_lt_zero i)⟩
    · rintro ⟨hlength, -⟩
      exact (List.length_eq_zero_iff.1 hlength).symm
  | succ count ih =>
    rw [mapM_range_succ, bind_eq_ok]
    constructor
    · rintro ⟨others, hothers, h⟩
      obtain ⟨b, hb, hbs⟩ := bind_eq_ok.1 h
      obtain ⟨hlength, hall⟩ := ih.1 hothers
      obtain rfl : others ++ [b] = bs := pure_eq_ok.1 hbs
      refine ⟨by simp [hlength], fun i hi => ?_⟩
      by_cases hlast : i < others.length
      · rw [List.getElem_append_left hlast]
        exact hall i hlast
      · have hi' : i = count := by
          rw [List.length_append, List.length_singleton] at hi
          omega
        subst hi'
        simp [hlength, hb]
    · rintro ⟨hlength, hall⟩
      have hne : bs ≠ [] := by
        rintro rfl
        cases hlength
      refine ⟨bs.dropLast, ih.2 ⟨by simp [hlength], fun i hi => ?_⟩, bind_eq_ok.2
        ⟨bs.getLast hne, ?_, pure_eq_ok.2 (List.dropLast_concat_getLast hne)⟩⟩
      · rw [List.getElem_dropLast]
        exact hall i _
      · rw [List.getLast_eq_getElem]
        have hlast : count = bs.length - 1 := by omega
        rw [hlast]
        exact hall _ _

/-- They fail with the failure of the first that fails. -/
theorem mapM_range_eq_error {f : Nat → Except ε β} {count : Nat} {e : ε} :
    (List.range count).mapM f = .error e ↔
      ∃ i < count, f i = .error e ∧ ∀ j < i, ∃ b, f j = .ok b := by
  induction count with
  | zero => simp [pure, Except.pure]
  | succ count ih =>
    rw [mapM_range_succ]
    cases hothers : (List.range count).mapM f with
    | error e' =>
      rw [hothers] at ih
      constructor
      · intro h
        obtain ⟨i, hi, hfirst⟩ := ih.1 h
        exact ⟨i, by omega, hfirst⟩
      · rintro ⟨i, hi, hfail, hbefore⟩
        -- were `i` the last place, all places before it would have given the results
        have hlt : i < count := by
          refine Nat.lt_of_not_le fun hge => ?_
          have hall : ∀ j ∈ List.range count, ∃ b, f j = .ok b := by
            intro j hj
            have hj := List.mem_range.1 hj
            exact hbefore j (by omega)
          obtain ⟨bs, hbs⟩ := exists_mapM_eq_ok hall
          rw [hothers] at hbs
          cases hbs
        exact ih.2 ⟨i, hlt, hfail, hbefore⟩
    | ok bs =>
      obtain ⟨hlength, hall⟩ := mapM_range_eq_ok.1 hothers
      have hok : ∀ j < count, ∃ b, f j = .ok b := fun j hj => ⟨_, hall j (by omega)⟩
      have hlast : (do return bs ++ [← f count] : Except ε (List β)) = .error e ↔
          f count = .error e := by
        rw [bind_eq_error]
        refine ⟨fun h => h.resolve_right ?_, .inl⟩
        rintro ⟨b, -, hb⟩
        cases hb
      refine hlast.trans ⟨fun h => ⟨count, by omega, h, hok⟩, ?_⟩
      rintro ⟨i, hi, hfail, -⟩
      rcases Nat.lt_succ_iff_lt_or_eq.1 hi with hlt | rfl
      · obtain ⟨b, hb⟩ := hok i hlt
        rw [hfail] at hb
        cases hb
      · exact hfail

/-- A computation with a state that ends in a failure leaves the state where it failed. -/
theorem bind_apply {σ : Type} (first : ExceptT ε (StateM σ) α) (next : α → ExceptT ε (StateM σ) β)
    (state : σ) :
    (first >>= next) state = match first state with
      | (.error failure, state) => (.error failure, state)
      | (.ok value, state) => next value state := by
  change (match first state with | (result, state) => ExceptT.bindCont next result state) = _
  rcases first state with ⟨_ | value, after⟩
  · rfl
  · rfl

/-- What is seen of the state is the same after the computation, whether it ends in a value or in a
failure. -/
def Keeps {σ γ : Type} (see : σ → γ) (run : ExceptT ε (StateM σ) α) : Prop :=
  ∀ state, see (run state).2 = see state

namespace Keeps

variable {σ γ δ : Type} {see : σ → γ}

theorem pure (value : α) : Keeps see (Pure.pure value : ExceptT ε (StateM σ) α) := by
  intro state
  rfl

theorem bind {first : ExceptT ε (StateM σ) α} {next : α → ExceptT ε (StateM σ) β}
    (h : Keeps see first) (hnext : ∀ value, Keeps see (next value)) : Keeps see (first >>= next) := by
  intro state
  have hfirst : see (first state).2 = see state := h state
  rw [bind_apply]
  rcases hrun : first state with ⟨failure | value, after⟩
  · rw [hrun] at hfirst
    exact hfirst
  · rw [hrun] at hfirst
    exact (hnext value after).trans hfirst

/-- Of what is kept every part is. -/
theorem part {run : ExceptT ε (StateM σ) α} (h : Keeps see run) (f : γ → δ) :
    Keeps (fun state => f (see state)) run := by
  intro state
  exact congrArg f (h state)

end Keeps

/-- What holds of the state holds of it after the computation, whether it ends in a value or in a
failure. -/
def Preserves {σ : Type} (holds : σ → Prop) (run : ExceptT ε (StateM σ) α) : Prop :=
  ∀ state, holds state → holds (run state).2

namespace Preserves

variable {σ : Type} {holds : σ → Prop}

theorem pure (value : α) : Preserves holds (Pure.pure value : ExceptT ε (StateM σ) α) := by
  intro state h
  exact h

theorem bind {first : ExceptT ε (StateM σ) α} {next : α → ExceptT ε (StateM σ) β}
    (h : Preserves holds first) (hnext : ∀ value, Preserves holds (next value)) :
    Preserves holds (first >>= next) := by
  intro state hstate
  have hfirst : holds (first state).2 := h state hstate
  rw [bind_apply]
  rcases hrun : first state with ⟨failure | value, after⟩
  · rw [hrun] at hfirst
    exact hfirst
  · rw [hrun] at hfirst
    exact hnext value after hfirst

end Preserves

/-- What holds of something that is kept goes on to hold. -/
theorem Keeps.preserves {σ γ : Type} {see : σ → γ} {run : ExceptT ε (StateM σ) α}
    (h : Keeps see run) (holds : γ → Prop) : Preserves (fun state => holds (see state)) run := by
  intro state hstate
  rw [h state]
  exact hstate

/-- A result that fails, if at all, in one of the ways that are allowed. -/
def FailsOnly (allowed : ε → Prop) (result : Except ε α) : Prop :=
  ∀ failure, result = .error failure → allowed failure

theorem FailsOnly.ok {allowed : ε → Prop} (value : α) : FailsOnly allowed (.ok value) := by
  rintro failure ⟨⟩

theorem FailsOnly.error {allowed : ε → Prop} {failure : ε} (h : allowed failure) :
    FailsOnly allowed (.error failure : Except ε α) := by
  rintro _ ⟨⟩
  exact h

/-- From a state of a kind the computation leaves one of that kind, and ends in one of the ways that
are allowed. -/
def Ensures {σ : Type} (holds : σ → Prop) (ends : Except ε α → Prop)
    (run : ExceptT ε (StateM σ) α) : Prop :=
  ∀ state, holds state → holds (run state).2 ∧ ends (run state).1

namespace Ensures

variable {σ : Type} {holds : σ → Prop} {ends ends' : Except ε α → Prop} {ends'' : Except ε β → Prop}

theorem pure {value : α} (h : ends (.ok value)) :
    Ensures holds ends (Pure.pure value : ExceptT ε (StateM σ) α) := by
  intro state hstate
  exact ⟨hstate, h⟩

theorem mono {run : ExceptT ε (StateM σ) α} (h : Ensures holds ends run)
    (hends : ∀ result, ends result → ends' result) : Ensures holds ends' run := by
  intro state hstate
  obtain ⟨hafter, hresult⟩ := h state hstate
  exact ⟨hafter, hends _ hresult⟩

theorem bind {first : ExceptT ε (StateM σ) α} {next : α → ExceptT ε (StateM σ) β}
    (h : Ensures holds ends first)
    (hfailure : ∀ failure, ends (.error failure) → ends'' (.error failure))
    (hnext : ∀ value, ends (.ok value) → Ensures holds ends'' (next value)) :
    Ensures holds ends'' (first >>= next) := by
  intro state hstate
  obtain ⟨hafter, hresult⟩ := h state hstate
  rw [bind_apply]
  rcases hrun : first state with ⟨failure | value, after⟩
  · rw [hrun] at hafter hresult
    exact ⟨hafter, hfailure failure hresult⟩
  · rw [hrun] at hafter hresult
    exact hnext value hresult after hafter

end Ensures

/-- On the mirror image of a state of a kind the computation ends as on the state itself, and leaves
the mirror image of what it leaves there. -/
def Mirrors {σ : Type} (holds : σ → Prop) (mirror : σ → σ) (run : ExceptT ε (StateM σ) α) : Prop :=
  ∀ state, holds state → run (mirror state) = ((run state).1, mirror (run state).2)

namespace Mirrors

variable {σ : Type} {holds : σ → Prop} {mirror : σ → σ} {ends : Except ε α → Prop}

theorem pure (value : α) : Mirrors holds mirror (Pure.pure value : ExceptT ε (StateM σ) α) := by
  intro state _
  rfl

/-- What follows is only run from states of the kind, and on values that are allowed. -/
theorem bind {first : ExceptT ε (StateM σ) α} {next : α → ExceptT ε (StateM σ) β}
    (h : Mirrors holds mirror first) (hensures : Ensures holds ends first)
    (hnext : ∀ value, ends (.ok value) → Mirrors holds mirror (next value)) :
    Mirrors holds mirror (first >>= next) := by
  intro state hstate
  obtain ⟨hafter, hresult⟩ := hensures state hstate
  rw [bind_apply, bind_apply, h state hstate]
  rcases hrun : first state with ⟨failure | value, after⟩
  · rfl
  · rw [hrun] at hafter hresult
    exact hnext value hresult after hafter

end Mirrors

/-- From two states that are related the computation ends in the same way, if in a value then in one
that is allowed, and the states that it leaves are related. -/
def Relates {σ : Type} (relation : σ → σ → Prop) (allowed : α → Prop)
    (run : ExceptT ε (StateM σ) α) : Prop :=
  ∀ state other, relation state other →
    relation (run state).2 (run other).2 ∧ (run other).1 = (run state).1 ∧
      ∀ value, (run state).1 = .ok value → allowed value

namespace Relates

variable {σ : Type} {relation : σ → σ → Prop} {allowed : α → Prop} {allowed' : β → Prop}

theorem pure {value : α} (h : allowed value) :
    Relates relation allowed (Pure.pure value : ExceptT ε (StateM σ) α) := by
  intro state other hrelated
  refine ⟨hrelated, rfl, ?_⟩
  rintro _ ⟨⟩
  exact h

theorem bind {first : ExceptT ε (StateM σ) α} {next : α → ExceptT ε (StateM σ) β}
    (h : Relates relation allowed first)
    (hnext : ∀ value, allowed value → Relates relation allowed' (next value)) :
    Relates relation allowed' (first >>= next) := by
  intro state other hrelated
  obtain ⟨hafter, hresult, hvalue⟩ := h state other hrelated
  rw [bind_apply, bind_apply]
  rcases hfirst : first state with ⟨result, after⟩
  rcases hother : first other with ⟨result', after'⟩
  rw [hfirst, hother] at hafter hresult
  obtain rfl : result' = result := hresult
  cases result' with
  | error failure =>
    refine ⟨hafter, rfl, ?_⟩
    rintro _ ⟨⟩
  | ok value => exact hnext value (hvalue value (by rw [hfirst])) after after' hafter

end Relates

end TextGrammar
