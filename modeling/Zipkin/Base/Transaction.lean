import Zipkin.Base.Effect
/-!
# Transaction — statements on a database, and a connection that can fail

A `Program` is a sequence of statements, of which each can depend on what the ones before it have returned; `run` is its
meaning on a database.  On a `Connection` every statement and every commit can throw, and what a transaction does is in
the database once it is committed.  A program that goes through in a transaction has had its meaning, and nothing of it
is in the database before the commit (`exec_runOn`).
-/

namespace Transaction

open Effect

variable {ε δ α ρ : Type}

inductive Program (ε δ α : Type) : Type 1 where
  | done (a : α)
  | halt (e : ε)
  | statement {ρ : Type} (x : Effect ε δ ρ) (next : ρ → Program ε δ α)

namespace Program

def run : Program ε δ α → Effect ε δ α
  | done a => pure a
  | halt e => throw e
  | statement x next => x >>= fun r => (next r).run

/-- A statement for each element, and then the rest. -/
def each {β : Type} (l : List β) (x : β → Effect ε δ Unit) (rest : Program ε δ α) : Program ε δ α :=
  l.foldr (fun b rest => statement (x b) fun _ => rest) rest

end Program

/-- What is committed, what the open transaction has made of it, and how often the driver was called.  No transaction is
open where every statement is committed by itself. -/
structure Connection (δ : Type) where
  database : δ
  current : δ
  autoCommit : Bool
  calls : Nat
  closed : autoCommit = true → current = database

namespace Connection

/-- A connection of the pool. -/
def pooled (database : δ) : Connection δ := ⟨database, database, true, 0, fun _ => rfl⟩

end Connection

section Driver
variable (faults : Nat → Option ε)

/-- A call of the driver throws what is chosen for it, and does nothing then. -/
def call (x : Effect ε (Connection δ) ρ) : Effect ε (Connection δ) ρ :=
  .of fun c => match faults c.calls with
    | some e => (.error e, { c with calls := c.calls + 1 })
    | none => exec x { c with calls := c.calls + 1 }

def execute (x : Effect ε δ ρ) : Effect ε (Connection δ) ρ :=
  call faults (.of fun c => ((exec x c.current).1, { c with
    database := if c.autoCommit then (exec x c.current).2 else c.database
    current := (exec x c.current).2
    closed := fun h => (if_pos h).symm }))

def commit : Effect ε (Connection δ) Unit :=
  call faults (.of fun c => (.ok (), { c with database := c.current, closed := fun _ => rfl }))

def rollback : Effect ε (Connection δ) Unit :=
  .of fun c => (.ok (), { c with current := c.database, closed := fun _ => rfl })

def getAutoCommit : Effect ε (Connection δ) Bool := .of fun c => (.ok c.autoCommit, c)

/-- A change of the mode commits the open transaction. -/
def setAutoCommit (autoCommit : Bool) : Effect ε (Connection δ) Unit :=
  .of fun c => (.ok (), if autoCommit = c.autoCommit then c else
    { c with database := c.current, autoCommit := autoCommit, closed := fun _ => rfl })

def Program.runOn : Program ε δ α → Effect ε (Connection δ) α
  | .done a => pure a
  | .halt e => throw e
  | .statement x next => execute faults x >>= fun r => (next r).runOn

end Driver

variable (faults : Nat → Option ε)

/-- In a transaction a statement has its meaning on the current state, if it goes through, and is not committed. -/
theorem exec_execute (x : Effect ε δ ρ) {c : Connection δ} (h : c.autoCommit = false) :
    (exec (execute faults x) c).2.database = c.database ∧ (exec (execute faults x) c).2.autoCommit = false ∧
      ∀ r, (exec (execute faults x) c).1 = .ok r → exec x c.current = (.ok r, (exec (execute faults x) c).2.current) := by
  unfold execute call
  rw [exec_of]
  cases faults c.calls with
  | some e => exact ⟨rfl, h, fun r hr => by cases hr⟩
  | none =>
    refine ⟨?_, h, fun r hr => Prod.ext hr rfl⟩
    exact if_neg (by simp [h])

/-- **In a transaction a program has its meaning**, if it goes through, and nothing of it is committed. -/
theorem exec_runOn (p : Program ε δ α) : ∀ {c : Connection δ}, c.autoCommit = false →
    (exec (p.runOn faults) c).2.database = c.database ∧ (exec (p.runOn faults) c).2.autoCommit = false ∧
      ∀ a, (exec (p.runOn faults) c).1 = .ok a → exec p.run c.current = (.ok a, (exec (p.runOn faults) c).2.current) := by
  induction p with
  | done a => exact fun h => ⟨rfl, h, fun b hb => Prod.ext hb rfl⟩
  | halt e => exact fun h => ⟨rfl, h, fun b hb => by cases hb⟩
  | statement x next ih =>
    intro c h
    obtain ⟨hdatabase, hauto, hmeaning⟩ := exec_execute faults x h
    rw [Program.runOn, Program.run, exec_bind]
    cases hexec : exec (execute faults x) c with
    | mk r c' =>
      rw [hexec] at hdatabase hauto hmeaning
      cases r with
      | error e => exact ⟨hdatabase, hauto, fun a ha => by cases ha⟩
      | ok r =>
        obtain ⟨hdatabase', hauto', hmeaning'⟩ := ih r hauto
        refine ⟨hdatabase'.trans hdatabase, hauto', fun a ha => ?_⟩
        rw [exec_bind_ok (hmeaning r rfl)]
        exact hmeaning' a ha

/-! ## Programs that go through -/

/-- Where no call throws, a program does on a connection what it does on a database. -/
theorem exec_runOn_none (p : Program ε δ α) : ∀ c : Connection δ,
    ∃ c', exec (p.runOn fun _ => none) c = ((exec p.run c.current).1, c') ∧ c'.current = (exec p.run c.current).2 := by
  induction p with
  | done a => exact fun c => ⟨c, rfl, rfl⟩
  | halt e => exact fun c => ⟨c, rfl, rfl⟩
  | statement x next ih =>
    intro c
    rw [Program.runOn, Program.run, exec_bind, exec_bind]
    cases hx : exec x c.current with
    | mk r d =>
      have hr : (exec x c.current).1 = r := by rw [hx]
      have hd : (exec x c.current).2 = d := by rw [hx]
      obtain ⟨c', hc', hcurrent⟩ : ∃ c', exec (execute (fun _ => none) x) c = (r, c') ∧ c'.current = d :=
        ⟨_, Prod.ext hr rfl, hd⟩
      rw [hc']
      cases r with
      | error e => exact ⟨c', rfl, hcurrent⟩
      | ok r =>
        rw [← hcurrent]
        exact ih r c'

theorem exec_run_each {β : Type} {x : β → Effect ε δ Unit} {u : δ → List ρ → δ} {g : β → ρ}
    (hx : ∀ b d, exec (x b) d = (.ok (), u d [g b])) (hnil : ∀ d, u d [] = d)
    (happend : ∀ d l l', u (u d l) l' = u d (l ++ l')) (rest : Program ε δ α) :
    ∀ (l : List β) (d : δ), exec (Program.each l x rest).run d = exec rest.run (u d (l.map g))
  | [], d => by
    rw [List.map_nil, hnil]
    rfl
  | b :: l, d => by
    have hrest := exec_run_each hx hnil happend rest l (u d [g b])
    rw [happend] at hrest
    exact (exec_bind_ok (hx b d)).trans hrest

end Transaction
