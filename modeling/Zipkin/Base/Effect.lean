import Mathlib.Data.List.Forall2
import Mathlib.Logic.Function.Basic
/-!
# Effect — computations that can throw and change a state

What was done to the state before a throw stays done.  `exec` runs such a computation; the rules here say what running a
list of them one after the other does: it throws exactly when one of them does, it keeps what each keeps, and on a memory
it writes only where they write.
-/

/-- A computation on a state `σ` that ends with a value or throws. -/
abbrev Effect (ε σ α : Type) := ExceptT ε (StateM σ) α

namespace Effect

variable {ε σ α β : Type}

def of (f : σ → Except ε α × σ) : Effect ε σ α := ExceptT.mk f

def exec (x : Effect ε σ α) (s : σ) : Except ε α × σ := StateT.run (ExceptT.run x) s

@[simp] theorem exec_of (f : σ → Except ε α × σ) (s : σ) : exec (of f) s = f s := rfl

@[simp] theorem exec_pure (a : α) (s : σ) : exec (pure a : Effect ε σ α) s = (.ok a, s) := rfl

theorem exec_bind (x : Effect ε σ α) (f : α → Effect ε σ β) (s : σ) :
    exec (x >>= f) s = match exec x s with
      | (.ok a, s') => exec (f a) s'
      | (.error e, s') => (.error e, s') := by
  have hbind : exec (x >>= f) s = (match exec x s with | (r, s') => StateT.run (ExceptT.bindCont f r) s') := rfl
  rw [hbind]
  cases exec x s with
  | mk r s' => cases r <;> rfl

theorem exec_tryCatch (x : Effect ε σ α) (f : ε → Effect ε σ α) (s : σ) :
    exec (tryCatch x f) s = match exec x s with
      | (.ok a, s') => (.ok a, s')
      | (.error e, s') => exec (f e) s' := by
  have hcatch : exec (tryCatch x f) s = (match exec x s with
    | (r, s') => StateT.run (match r with
      | .ok a => (pure (.ok a) : StateM σ (Except ε α))
      | .error e => f e) s') := rfl
  rw [hcatch]
  cases exec x s with
  | mk r s' => cases r <;> rfl

/-- `try x finally y`: `y` is run whatever `x` did, and throws if `y` throws. -/
def andFinally (x : Effect ε σ α) (y : Effect ε σ Unit) : Effect ε σ α :=
  of fun s => match exec y (exec x s).2 with
    | (.ok (), s') => ((exec x s).1, s')
    | (.error e, s') => (.error e, s')

theorem exec_bind_ok {x : Effect ε σ α} {f : α → Effect ε σ β} {s s' : σ} {a : α} (h : exec x s = (.ok a, s')) :
    exec (x >>= f) s = exec (f a) s' := by
  rw [exec_bind, h]

theorem exec_bind_error {x : Effect ε σ α} {f : α → Effect ε σ β} {s s' : σ} {e : ε}
    (h : exec x s = (.error e, s')) : exec (x >>= f) s = (.error e, s') := by
  rw [exec_bind, h]

theorem exec_map (f : α → β) (x : Effect ε σ α) (s : σ) :
    exec (f <$> x) s = ((exec x s).1.map f, (exec x s).2) := by
  rw [map_eq_pure_bind, exec_bind]
  cases exec x s with
  | mk r s' => cases r <;> rfl

theorem exec_bind_eq_ok {x : Effect ε σ α} {f : α → Effect ε σ β} {s s' : σ} {b : β}
    (h : exec (x >>= f) s = (.ok b, s')) : ∃ a s₁, exec x s = (.ok a, s₁) ∧ exec (f a) s₁ = (.ok b, s') := by
  rw [exec_bind] at h
  cases hx : exec x s with
  | mk r s₁ =>
    rw [hx] at h
    cases r with
    | ok a => exact ⟨a, s₁, rfl, h⟩
    | error e => cases h

/-! ## A list of computations -/

theorem exec_mapM_nil (f : α → Effect ε σ β) (s : σ) : exec ([].mapM f) s = (.ok [], s) := rfl

theorem mapM_cons (f : α → Effect ε σ β) (a : α) (l : List α) :
    (a :: l).mapM f = f a >>= fun b => (b :: ·) <$> l.mapM f := by
  rw [List.mapM_cons]
  rfl

theorem mapM_congr {f g : α → Effect ε σ β} : ∀ {l : List α}, (∀ a ∈ l, f a = g a) → l.mapM f = l.mapM g
  | [], _ => rfl
  | a :: l, h => by
    rw [mapM_cons, mapM_cons, h a List.mem_cons_self, mapM_congr (fun b hb => h b (List.mem_cons_of_mem _ hb))]

theorem exists_of_map_eq_ok {x : Except ε α} {f : α → β} {b : β} (h : x.map f = .ok b) : ∃ a, x = .ok a ∧ f a = b := by
  cases x with
  | error e => cases h
  | ok a => exact ⟨a, rfl, Except.ok.inj h⟩

theorem mapM_map_eq_ok {γ : Type} {f : β → Except ε α} {g : γ → β} {h : γ → α} : ∀ {l : List γ},
    (∀ a ∈ l, f (g a) = .ok (h a)) → (l.map g).mapM f = .ok (l.map h)
  | [], _ => rfl
  | a :: l, hall => by
    rw [List.map_cons, List.mapM_cons, hall a List.mem_cons_self,
      mapM_map_eq_ok (fun b hb => hall b (List.mem_cons_of_mem _ hb))]
    rfl

theorem mapM_eq_ok {f : β → Except ε α} {h : β → α} {l : List β} (hall : ∀ b ∈ l, f b = .ok (h b)) :
    l.mapM f = .ok (l.map h) := by
  have hmap := mapM_map_eq_ok (g := id) hall
  rwa [List.map_id] at hmap

/-- What was made by `g` is read back by `f`, one after the other. -/
theorem mapM_map_ok {f : β → Except ε α} {g : α → β} {l : List α} (h : ∀ a ∈ l, f (g a) = .ok a) :
    (l.map g).mapM f = .ok l := by
  have hmap := mapM_map_eq_ok (h := id) h
  rwa [List.map_id] at hmap

theorem exists_of_mem_mapM_ok {f : β → Except ε α} : ∀ {l : List β} {as : List α}, l.mapM f = .ok as →
    ∀ a ∈ as, ∃ b ∈ l, f b = .ok a
  | [], _, h, a, ha => by
    obtain rfl := Except.ok.inj h
    exact (List.not_mem_nil ha).elim
  | b :: l, _, h, a, ha => by
    rw [List.mapM_cons] at h
    cases hb : f b with
    | error e =>
      rw [hb] at h
      cases h
    | ok a' =>
      cases hl : l.mapM f with
      | error e =>
        rw [hb, hl] at h
        cases h
      | ok as =>
        rw [hb, hl] at h
        obtain rfl := Except.ok.inj h
        rcases List.mem_cons.1 ha with rfl | ha
        · exact ⟨b, List.mem_cons_self, hb⟩
        · obtain ⟨c, hc, hfc⟩ := exists_of_mem_mapM_ok hl a ha
          exact ⟨c, List.mem_cons_of_mem _ hc, hfc⟩

theorem exists_mapM_ok {f : β → Except ε α} : ∀ {l : List β}, (∀ b ∈ l, ∃ a, f b = .ok a) → ∃ as, l.mapM f = .ok as
  | [], _ => ⟨[], rfl⟩
  | b :: l, h => by
    obtain ⟨a, ha⟩ := h b List.mem_cons_self
    obtain ⟨as, has⟩ := exists_mapM_ok (f := f) (l := l) (fun c hc => h c (List.mem_cons_of_mem _ hc))
    exact ⟨a :: as, by rw [List.mapM_cons, ha, has]; rfl⟩

theorem exists_mem_of_mapM_ok {f : β → Except ε α} : ∀ {l : List β} {as : List α}, l.mapM f = .ok as →
    ∀ b ∈ l, ∃ a ∈ as, f b = .ok a
  | b :: l, as, h, c, hc => by
    rw [List.mapM_cons] at h
    cases hb : f b with
    | error e =>
      rw [hb] at h
      cases h
    | ok a =>
      cases hl : l.mapM f with
      | error e =>
        rw [hb, hl] at h
        cases h
      | ok as' =>
        rw [hb, hl] at h
        obtain rfl := Except.ok.inj h
        rcases List.mem_cons.1 hc with rfl | hc
        · exact ⟨a, List.mem_cons_self, hb⟩
        · obtain ⟨d, hd, hfd⟩ := exists_mem_of_mapM_ok hl c hc
          exact ⟨d, List.mem_cons_of_mem _ hd, hfd⟩

theorem forall₂_of_mapM_ok {f : α → Effect ε σ β} {l : List α} : ∀ {s s' : σ} {bs : List β},
    exec (l.mapM f) s = (.ok bs, s') → List.Forall₂ (fun a b => ∃ s s', exec (f a) s = (.ok b, s')) l bs := by
  induction l with
  | nil =>
    intro s s' bs h
    rw [exec_mapM_nil] at h
    cases h
    exact .nil
  | cons a l ih =>
    intro s s' bs h
    rw [mapM_cons] at h
    obtain ⟨b, s₁, hb, h⟩ := exec_bind_eq_ok h
    rw [exec_map] at h
    cases hl : exec (l.mapM f) s₁ with
    | mk r s₂ =>
      rw [hl] at h
      cases r with
      | ok bs' => cases h; exact .cons ⟨s, s₁, hb⟩ (ih hl)
      | error e => cases h

/-- Computations of which each brings the state on by one element. -/
theorem exec_mapM_snoc {f : α → Effect ε σ Unit} {state : List α → σ}
    (h : ∀ before a, exec (f a) (state before) = (.ok (), state (before ++ [a]))) : ∀ l before : List α,
      exec (l.mapM f) (state before) = (.ok (l.map fun _ => ()), state (before ++ l))
  | [], before => by rw [List.append_nil]; rfl
  | a :: l, before => by
    rw [mapM_cons, exec_bind_ok (h before a), exec_map, exec_mapM_snoc h l, List.append_assoc]
    rfl

theorem exists_of_mapM_ok₂ {f g : α → Effect ε σ β} {l : List α} {s₁ s₁' s₂ s₂' : σ} {bs : List β}
    (h₁ : exec (l.mapM f) s₁ = (.ok bs, s₁')) (h₂ : exec (l.mapM g) s₂ = (.ok bs, s₂')) {a : α} (ha : a ∈ l) :
    ∃ b, (∃ s s', exec (f a) s = (.ok b, s')) ∧ ∃ s s', exec (g a) s = (.ok b, s') := by
  have h₁ := forall₂_of_mapM_ok h₁
  have h₂ := forall₂_of_mapM_ok h₂
  clear * - h₁ h₂ ha
  induction h₁ with
  | nil => cases ha
  | cons hf _ ih =>
    obtain ⟨hg, h₂⟩ := List.forall₂_cons.1 h₂
    rcases List.mem_cons.1 ha with rfl | ha
    · exact ⟨_, hf, hg⟩
    · exact ih ha h₂

/-- **Computations that leave the state as it is** do so one after the other. -/
theorem exec_mapM_pure {f : α → Effect ε σ β} {g : α → β} {s : σ} : ∀ {l : List α},
    (∀ a ∈ l, exec (f a) s = (.ok (g a), s)) → exec (l.mapM f) s = (.ok (l.map g), s)
  | [], _ => rfl
  | a :: l, h => by
    rw [mapM_cons, exec_bind_ok (h a List.mem_cons_self), exec_map,
      exec_mapM_pure (fun b hb => h b (List.mem_cons_of_mem _ hb))]
    rfl

/-! ## What every run does -/

/-- Whether it goes through or throws, a run takes the state to a related one. -/
def Moves (R : σ → σ → Prop) (x : Effect ε σ α) : Prop := ∀ s, R s (exec x s).2

abbrev Keeps (P : σ → Prop) (x : Effect ε σ α) : Prop := Moves (fun s s' => P s → P s') x

/-- It throws in no state. -/
def Succeeds (x : Effect ε σ α) : Prop := ∀ s, ∃ a s', exec x s = (.ok a, s')

section Moves
variable {R : σ → σ → Prop} {P : σ → Prop}

instance : Std.Refl (fun s s' : σ => P s → P s') := ⟨fun _ hp => hp⟩

instance : IsTrans σ (fun s s' : σ => P s → P s') := ⟨fun _ _ _ h h' hp => h' (h hp)⟩

theorem Moves.of_exec {x : Effect ε σ α} {r : Except ε α} {s s' : σ} (h : exec x s = (r, s')) (hx : Moves R x) :
    R s s' := by
  have hs := hx s
  rwa [h] at hs

theorem moves_pure [Std.Refl R] (a : α) : Moves R (pure a : Effect ε σ α) := fun s => Std.Refl.refl s

theorem moves_throw [Std.Refl R] (e : ε) : Moves R (throw e : Effect ε σ α) := fun s => Std.Refl.refl s

theorem Moves.bind [IsTrans σ R] {x : Effect ε σ α} {f : α → Effect ε σ β} (hx : Moves R x)
    (hf : ∀ a, Moves R (f a)) : Moves R (x >>= f) := by
  intro s
  have hs := hx s
  rw [exec_bind]
  cases h : exec x s with
  | mk r s' =>
    rw [h] at hs
    cases r with
    | error e => exact hs
    | ok a => exact IsTrans.trans _ _ _ hs (hf a s')

theorem Moves.map {x : Effect ε σ α} (hx : Moves R x) (f : α → β) : Moves R (f <$> x) := by
  intro s
  rw [exec_map]
  exact hx s

theorem Moves.mapM [Std.Refl R] [IsTrans σ R] {f : α → Effect ε σ β} : ∀ {l : List α},
    (∀ a ∈ l, Moves R (f a)) → Moves R (l.mapM f)
  | [], _ => fun s => Std.Refl.refl s
  | a :: l, h => by
    rw [mapM_cons]
    exact (h a List.mem_cons_self).bind
      (fun b => (Moves.mapM (fun c hc => h c (List.mem_cons_of_mem _ hc))).map _)

theorem keeps_mapM {f : α → Effect ε σ β} {l : List α} (h : ∀ a ∈ l, Keeps P (f a)) : Keeps P (l.mapM f) :=
  Moves.mapM h

theorem succeeds_pure (a : α) : Succeeds (pure a : Effect ε σ α) := fun s => ⟨a, s, rfl⟩

theorem Succeeds.bind {x : Effect ε σ α} {f : α → Effect ε σ β} (hx : Succeeds x) (hf : ∀ a, Succeeds (f a)) :
    Succeeds (x >>= f) := by
  intro s
  obtain ⟨a, s₁, ha⟩ := hx s
  obtain ⟨b, s₂, hb⟩ := hf a s₁
  exact ⟨b, s₂, by rw [exec_bind_ok ha, hb]⟩

theorem Succeeds.map {x : Effect ε σ α} (hx : Succeeds x) (f : α → β) : Succeeds (f <$> x) := by
  intro s
  obtain ⟨a, s', ha⟩ := hx s
  exact ⟨f a, s', by rw [exec_map, ha]; rfl⟩

theorem Succeeds.mapM {f : α → Effect ε σ β} : ∀ {l : List α}, (∀ a ∈ l, Succeeds (f a)) → Succeeds (l.mapM f)
  | [], _ => fun s => ⟨[], s, rfl⟩
  | a :: l, h => by
    rw [mapM_cons]
    exact (h a List.mem_cons_self).bind
      (fun b => (Succeeds.mapM (fun c hc => h c (List.mem_cons_of_mem _ hc))).map _)

/-- **What each computation brings about and all of them keep** is there for each of them after the list. -/
theorem forall_of_mapM_ok {Q : α → σ → Prop} {f : α → Effect ε σ β} : ∀ {l : List α},
    (∀ a ∈ l, Keeps P (f a)) →
    (∀ a ∈ l, ∀ b ∈ l, Keeps (Q a) (f b)) →
    (∀ a ∈ l, ∀ s b s', P s → exec (f a) s = (.ok b, s') → Q a s') →
    ∀ {s s' : σ} {bs : List β}, P s → exec (l.mapM f) s = (.ok bs, s') → ∀ a ∈ l, Q a s'
  | [], _, _, _, _, _, _, _, _ => fun _ ha => (List.not_mem_nil ha).elim
  | c :: l, hP, hQ, hf, s, s', bs, hs, hok => by
    rw [mapM_cons] at hok
    obtain ⟨b, s₁, hc, hok⟩ := exec_bind_eq_ok hok
    have hl : ∃ bs', exec (l.mapM f) s₁ = (.ok bs', s') := by
      rw [exec_map] at hok
      cases hl : exec (l.mapM f) s₁ with
      | mk r s₂ =>
        rw [hl] at hok
        cases r with
        | ok bs' => cases hok; exact ⟨bs', rfl⟩
        | error e => cases hok
    obtain ⟨bs', hl⟩ := hl
    have hP₁ : P s₁ := by
      have h := hP c List.mem_cons_self s hs
      rwa [hc] at h
    intro a ha
    rcases List.mem_cons.1 ha with rfl | ha
    · -- brought about first, then kept by the rest
      have h := keeps_mapM (fun b hb => hQ a List.mem_cons_self b (List.mem_cons_of_mem _ hb)) s₁
        (hf a List.mem_cons_self s b s₁ hs hc)
      rwa [hl] at h
    · exact forall_of_mapM_ok (fun a ha => hP a (List.mem_cons_of_mem _ ha))
        (fun a ha b hb => hQ a (List.mem_cons_of_mem _ ha) b (List.mem_cons_of_mem _ hb))
        (fun a ha => hf a (List.mem_cons_of_mem _ ha)) hP₁ hl a ha

end Moves

/-! ## What a run ends with -/

/-- From this state it goes through, with a value and a state of the kind. -/
def Yields (x : Effect ε σ α) (s : σ) (Q : α → σ → Prop) : Prop := ∃ a s', exec x s = (.ok a, s') ∧ Q a s'

section Yields
variable {Q : α → σ → Prop} {s : σ}

theorem yields_pure {a : α} (h : Q a s) : Yields (pure a : Effect ε σ α) s Q := ⟨a, s, rfl, h⟩

theorem Yields.imp {R : α → σ → Prop} {x : Effect ε σ α} (h : Yields x s Q) (himp : ∀ a s', Q a s' → R a s') : Yields x s R := by
  obtain ⟨a, s', hexec, hQ⟩ := h
  exact ⟨a, s', hexec, himp a s' hQ⟩

theorem Yields.bind {R : β → σ → Prop} {x : Effect ε σ α} {f : α → Effect ε σ β} (hx : Yields x s Q)
    (hf : ∀ a s', Q a s' → Yields (f a) s' R) : Yields (x >>= f) s R := by
  obtain ⟨a, s₁, hexec, hQ⟩ := hx
  obtain ⟨b, s₂, hexec', hR⟩ := hf a s₁ hQ
  exact ⟨b, s₂, (exec_bind_ok hexec).trans hexec', hR⟩

theorem Yields.map {R : β → σ → Prop} {x : Effect ε σ α} {f : α → β} (hx : Yields x s Q) (hf : ∀ a s', Q a s' → R (f a) s') :
    Yields (f <$> x) s R := by
  obtain ⟨a, s', hexec, hQ⟩ := hx
  exact ⟨f a, s', by rw [exec_map, hexec]; rfl, hf a s' hQ⟩

/-- **A loop keeps an invariant** of the values so far and the state. -/
theorem yields_mapM {I : List β → σ → Prop} {f : α → Effect ε σ β} : ∀ {l : List α} {before : List β} {s : σ}, I before s →
    (∀ a ∈ l, ∀ bs s', I bs s' → Yields (f a) s' fun b s'' => I (bs ++ [b]) s'') →
      Yields (l.mapM f) s fun bs s' => bs.length = l.length ∧ I (before ++ bs) s'
  | [], before, s, h, _ => ⟨[], s, rfl, rfl, by rwa [List.append_nil]⟩
  | a :: l, before, s, h, hstep => by
    rw [mapM_cons]
    refine (hstep a List.mem_cons_self before s h).bind fun b s₁ hb => ?_
    refine (yields_mapM hb fun c hc => hstep c (List.mem_cons_of_mem a hc)).map fun bs s₂ hbs => ?_
    rw [List.append_assoc] at hbs
    exact ⟨congrArg (· + 1) hbs.1, hbs.2⟩

end Yields

/-! ## Where a computation goes through -/

/-- Where `ready` holds the computation goes through, and makes `after` of the state; elsewhere it throws. -/
structure Outcome (f : α → Effect ε σ β) (ready : α → σ → Prop) (after : α → σ → σ) : Prop where
  ok : ∀ a s, ready a s → ∃ b, exec (f a) s = (.ok b, after a s)
  error : ∀ a s, ¬ ready a s → ∃ e s', exec (f a) s = (.error e, s')

/-- What is left of the state after a list of them. -/
def afterAll (after : α → σ → σ) (l : List α) (s : σ) : σ := l.foldl (fun s a => after a s) s

/-- Each is ready when its turn comes. -/
def AllAlong (ready : α → σ → Prop) (after : α → σ → σ) : List α → σ → Prop
  | [], _ => True
  | a :: l, s => ready a s ∧ AllAlong ready after l (after a s)

theorem Outcome.map {f : α → Effect ε σ β} {ready : α → σ → Prop} {after : α → σ → σ} (h : Outcome f ready after)
    {γ : Type} (g : α → β → γ) : Outcome (fun a => g a <$> f a) ready after where
  ok a s hr := by
    obtain ⟨b, hb⟩ := h.ok a s hr
    exact ⟨g a b, by rw [exec_map, hb]; rfl⟩
  error a s hr := by
    obtain ⟨e, s', he⟩ := h.error a s hr
    exact ⟨e, s', by rw [exec_map, he]; rfl⟩

theorem Outcome.comp {f : α → Effect ε σ β} {ready : α → σ → Prop} {after : α → σ → σ} (h : Outcome f ready after)
    {γ : Type} (g : γ → α) : Outcome (fun c => f (g c)) (fun c => ready (g c)) (fun c => after (g c)) where
  ok c := h.ok (g c)
  error c := h.error (g c)

/-- **A list goes through** where each of its computations is ready when its turn comes, and throws elsewhere. -/
theorem Outcome.mapM {f : α → Effect ε σ β} {ready : α → σ → Prop} {after : α → σ → σ} (h : Outcome f ready after) :
    Outcome (fun l : List α => l.mapM f) (AllAlong ready after) (afterAll after) where
  ok l := by
    induction l with
    | nil => exact fun s _ => ⟨[], rfl⟩
    | cons a l ih =>
      rintro s ⟨ha, hl⟩
      obtain ⟨b, hb⟩ := h.ok a s ha
      obtain ⟨bs, hbs⟩ := ih _ hl
      exact ⟨b :: bs, by rw [mapM_cons, exec_bind_ok hb, exec_map, hbs]; rfl⟩
  error l := by
    induction l with
    | nil => exact fun s hr => absurd trivial hr
    | cons a l ih =>
      intro s hr
      by_cases ha : ready a s
      · obtain ⟨b, hb⟩ := h.ok a s ha
        obtain ⟨e, s', he⟩ := ih (after a s) (fun hl => hr ⟨ha, hl⟩)
        exact ⟨e, s', by rw [mapM_cons, exec_bind_ok hb, exec_map, he]; rfl⟩
      · obtain ⟨e, s', he⟩ := h.error a s ha
        exact ⟨e, s', by rw [mapM_cons, exec_bind_error he]⟩

theorem afterAll_append (after : α → σ → σ) (l l' : List α) (s : σ) :
    afterAll after (l ++ l') s = afterAll after l' (afterAll after l s) := List.foldl_append

theorem allAlong_append {ready : α → σ → Prop} {after : α → σ → σ} {l' : List α} : ∀ {l : List α} {s : σ},
    AllAlong ready after (l ++ l') s ↔ AllAlong ready after l s ∧ AllAlong ready after l' (afterAll after l s)
  | [], _ => ⟨fun h => ⟨trivial, h⟩, And.right⟩
  | a :: l, s => by
    rw [List.cons_append, AllAlong, AllAlong, allAlong_append, and_assoc]
    rfl

theorem allAlong_flatMap {γ : Type} {ready : α → σ → Prop} {after : α → σ → σ} {g : γ → List α} :
    ∀ {l : List γ} {s : σ}, AllAlong ready after (l.flatMap g) s ↔
      AllAlong (fun c s => AllAlong ready after (g c) s) (fun c s => afterAll after (g c) s) l s
  | [], _ => Iff.rfl
  | c :: l, s => by
    rw [List.flatMap_cons, allAlong_append, AllAlong, allAlong_flatMap]

theorem afterAll_flatMap {γ : Type} (after : α → σ → σ) (g : γ → List α) : ∀ (l : List γ) (s : σ),
    afterAll after (l.flatMap g) s = afterAll (fun c s => afterAll after (g c) s) l s
  | [], _ => rfl
  | c :: l, s => by
    rw [List.flatMap_cons, afterAll_append, afterAll_flatMap]
    rfl

theorem afterAll_keeps {P : σ → Prop} {after : α → σ → σ} : ∀ {l : List α} {s : σ},
    (∀ a ∈ l, ∀ s, P s → P (after a s)) → P s → P (afterAll after l s)
  | [], _, _, hs => hs
  | a :: l, s, h, hs =>
    afterAll_keeps (l := l) (fun b hb => h b (List.mem_cons_of_mem _ hb)) (h a List.mem_cons_self s hs)

/-! ## How a run ends

`ending` is what a run does but for its value: whether it throws, and the state that it leaves.  Lists in a list end as
the list of all their elements does. -/

def ending (x : Effect ε σ α) (s : σ) : Except ε Unit × σ := ((exec x s).1.map fun _ => (), (exec x s).2)

theorem ending_map (f : α → β) (x : Effect ε σ α) : ending (f <$> x) = ending x := by
  funext s
  rw [ending, ending, exec_map]
  cases (exec x s).1 <;> rfl

/-- One after the other, up to the first that throws. -/
def endAll (e : α → σ → Except ε Unit × σ) : List α → σ → Except ε Unit × σ
  | [], s => (.ok (), s)
  | a :: l, s => match e a s with
    | (.ok (), s') => endAll e l s'
    | (.error err, s') => (.error err, s')

theorem ending_mapM (f : α → Effect ε σ β) : ∀ l : List α, ending (l.mapM f) = endAll (fun a => ending (f a)) l
  | [] => rfl
  | a :: l => by
    funext s
    rw [endAll, ← ending_mapM f l, mapM_cons]
    simp only [ending, exec_bind, exec_map]
    cases exec (f a) s with
    | mk r s' =>
      cases r with
      | error err => rfl
      | ok b =>
        simp only [Except.map]
        cases (exec (l.mapM f) s').1 <;> rfl

theorem endAll_append (e : α → σ → Except ε Unit × σ) {l' : List α} : ∀ (l : List α) (s : σ),
    endAll e (l ++ l') s = match endAll e l s with
      | (.ok (), s') => endAll e l' s'
      | (.error err, s') => (.error err, s')
  | [], _ => rfl
  | a :: l, s => by
    rw [List.cons_append, endAll, endAll]
    cases e a s with
    | mk r s' =>
      cases r with
      | error err => rfl
      | ok _ => exact endAll_append e l s'

theorem endAll_flatMap {γ : Type} (e : α → σ → Except ε Unit × σ) (g : γ → List α) : ∀ l : List γ,
    endAll e (l.flatMap g) = endAll (fun c => endAll e (g c)) l
  | [] => rfl
  | c :: l => by
    funext s
    rw [List.flatMap_cons, endAll_append, endAll_flatMap e g l]
    rfl

/-! ## A memory

The state is a memory, a value for each key. -/

variable {κ ν : Type}

/-- A computation on one cell of the memory. -/
def zoom [DecidableEq κ] (k : κ) (x : Effect ε ν α) : Effect ε (κ → ν) α :=
  of fun h => ((exec x (h k)).1, Function.update h k (exec x (h k)).2)

@[simp] theorem exec_zoom [DecidableEq κ] (k : κ) (x : Effect ε ν α) (h : κ → ν) :
    exec (zoom k x) h = ((exec x (h k)).1, Function.update h k (exec x (h k)).2) := rfl

end Effect
