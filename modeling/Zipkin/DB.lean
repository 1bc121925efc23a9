import Zipkin.Base.Transaction
/-!
# DB — transactions that are tried again

`DB.scala`.  A block of statements is run in a transaction, which is rolled back if a statement or the commit throws, and
once more if the exception is an `SQLRecoverableException`.  `withRecoverableTransaction_atomic`: whichever calls throw in
the two attempts, the database has one complete run of the block in it, or is as it was and the caller has the exception.
-/
namespace Zipkin

open Effect Transaction

/-- `com.twitter.util.Try`. -/
abbrev Try (ε α : Type) := Except ε α

def Try.apply {ε σ α : Type} : Try ε α → Effect ε σ α
  | .ok a => pure a
  | .error e => throw e

/-- The orders that are nobody's choice: of the rows of a result, and of the values of a hash map. -/
structure RowOrder where
  rows : ∀ {ρ : Type}, List ρ → List ρ
  rows_perm : ∀ {ρ : Type} (l : List ρ), (rows l).Perm l
  values : ∀ {ν : Type}, List ν → List ν
  values_perm : ∀ {ν : Type} (l : List ν), (values l).Perm l

/-- The rows as they stand in the tables. -/
def RowOrder.insertion : RowOrder where
  rows l := l
  rows_perm l := .refl l
  values l := l
  values_perm l := .refl l

namespace DB

variable {ε σ δ α : Type}

section Definitions
variable (faults : Nat → Option ε) (isSQLRecoverableException : ε → Bool)

def withTransaction (code : Program ε δ α) : Effect ε (Connection δ) (Try ε α) := do
  let autoCommit ← getAutoCommit
  andFinally
    (tryCatch (do
        setAutoCommit false
        let result ← code.runOn faults
        commit faults
        pure (.ok result))
      (fun e => do
        rollback
        pure (.error e)))
    (setAutoCommit autoCommit)

/-- What is not an `SQLRecoverableException` is thrown on, and so is all that the second run throws. -/
def withRecoverableRetry (code : Effect ε σ α) : Effect ε σ (Try ε α) :=
  tryCatch (.ok <$> code) (fun e => if isSQLRecoverableException e then .ok <$> code else throw e)

def withRecoverableTransaction (code : Program ε δ α) : Effect ε (Connection δ) (Try ε α) :=
  withRecoverableRetry isSQLRecoverableException (withTransaction faults code >>= Try.apply)

/-- `borrowConn` and `returnConn`: a connection of the pool, for one call. -/
def withPooledConnection (x : Effect ε (Connection δ) α) : Effect ε δ α :=
  .of fun database => ((exec x (.pooled database)).1, (exec x (.pooled database)).2.database)

end Definitions

variable (faults : Nat → Option ε)

/-- What an attempt of a block leaves: a run of the block in the database, or the database as it was. -/
def Attempted (code : Program ε δ α) (c c' : Connection δ) : Except ε α → Prop
  | .ok a => exec code.run c.current = (.ok a, c'.database)
  | .error _ => c'.database = c.database

/-- The mode is as it was, and no transaction is open. -/
structure Restored (c c' : Connection δ) : Prop where
  autoCommit : c'.autoCommit = c.autoCommit
  closed : c'.current = c'.database

theorem exec_setAutoCommit_false (c : Connection δ) : ∃ c', exec (setAutoCommit (ε := ε) false) c = (.ok (), c') ∧
    c'.database = c.database ∧ c'.current = c.current ∧ c'.autoCommit = false := by
  refine ⟨_, rfl, ?_⟩
  by_cases h : false = c.autoCommit
  · rw [if_pos h]
    exact ⟨rfl, rfl, h.symm⟩
  · rw [if_neg h]
    exact ⟨c.closed (by simpa using Ne.symm h), rfl, rfl⟩

theorem restored_setAutoCommit {c : Connection δ} (h : c.current = c.database) (autoCommit : Bool) :
    ∃ c', exec (setAutoCommit (ε := ε) autoCommit) c = (.ok (), c') ∧ c'.database = c.database ∧
      c'.autoCommit = autoCommit ∧ c'.current = c'.database := by
  refine ⟨_, rfl, ?_⟩
  split
  · rename_i heq
    exact ⟨rfl, heq.symm, h⟩
  · exact ⟨h, rfl, rfl⟩

theorem exec_commit (c : Connection δ) :
    (exec (commit faults) c).1 = .ok () ∧ (exec (commit faults) c).2.database = c.current ∧
        (exec (commit faults) c).2.current = c.current ∨
      ∃ e, (exec (commit faults) c).1 = .error e ∧ (exec (commit faults) c).2.database = c.database := by
  unfold commit call
  rw [exec_of]
  cases faults c.calls with
  | some e => exact Or.inr ⟨e, rfl, rfl⟩
  | none => exact Or.inl ⟨rfl, rfl, rfl⟩

/-- What `withTransaction` tries: the block has run and is committed, or nothing is. -/
theorem exec_tried (code : Program ε δ α) (c : Connection δ) :
    ∃ r c', exec (do
        setAutoCommit false
        let result ← code.runOn faults
        commit faults
        pure (.ok result) : Effect ε (Connection δ) (Try ε α)) c = (r, c') ∧
      ((∃ a, r = .ok (.ok a) ∧ exec code.run c.current = (.ok a, c'.database) ∧ c'.current = c'.database) ∨
        ∃ e, r = .error e ∧ c'.database = c.database) := by
  obtain ⟨c₁, hset, hdatabase₁, hcurrent₁, hauto₁⟩ := exec_setAutoCommit_false (ε := ε) c
  obtain ⟨hdatabase₂, -, hmeaning⟩ := exec_runOn faults code hauto₁
  rw [exec_bind_ok hset]
  cases hrun : exec (code.runOn faults) c₁ with
  | mk r c₂ =>
    rw [hrun] at hdatabase₂ hmeaning
    cases r with
    | error e => exact ⟨_, c₂, exec_bind_error hrun, Or.inr ⟨e, rfl, hdatabase₂.trans hdatabase₁⟩⟩
    | ok a =>
      have hrun' := hmeaning a rfl
      rw [hcurrent₁] at hrun'
      rw [exec_bind_ok hrun]
      rcases hcommit : exec (commit faults) c₂ with ⟨r, c₃⟩
      have hc := exec_commit faults c₂
      rw [hcommit] at hc
      rcases hc with ⟨hr, hdatabase₃, hcurrent₃⟩ | ⟨e, hr, hdatabase₃⟩
      · obtain rfl : r = .ok () := hr
        refine ⟨_, c₃, exec_bind_ok hcommit, Or.inl ⟨a, rfl, ?_, hcurrent₃.trans hdatabase₃.symm⟩⟩
        rw [hrun']
        exact congrArg (Prod.mk _) hdatabase₃.symm
      · obtain rfl : r = .error e := hr
        exact ⟨_, c₃, exec_bind_error hcommit, Or.inr ⟨e, rfl, hdatabase₃.trans (hdatabase₂.trans hdatabase₁)⟩⟩

/-- **One attempt** is a run of the block or leaves the database as it was, and the mode is set back. -/
theorem exec_withTransaction (code : Program ε δ α) (c : Connection δ) :
    ∃ r c', exec (withTransaction faults code) c = (.ok r, c') ∧ Attempted code c c' r ∧ Restored c c' := by
  obtain ⟨r, c₁, htried, h⟩ := exec_tried faults code c
  -- after the `catch` no transaction is open
  have hcaught : ∃ r c₂, exec (tryCatch (do
        setAutoCommit false
        let result ← code.runOn faults
        commit faults
        pure (.ok result))
      (fun e => do
        rollback
        pure (.error e)) : Effect ε (Connection δ) (Try ε α)) c = (.ok r, c₂) ∧ Attempted code c c₂ r ∧
        c₂.current = c₂.database := by
    rw [exec_tryCatch, htried]
    rcases h with ⟨a, rfl, hrun, hclosed⟩ | ⟨e, rfl, hdatabase⟩
    · exact ⟨.ok a, c₁, rfl, hrun, hclosed⟩
    · exact ⟨.error e, _, rfl, hdatabase, rfl⟩
  obtain ⟨r, c₂, hexec, hattempted, hclosed⟩ := hcaught
  obtain ⟨c₃, hset, hdatabase, hauto, hclosed₃⟩ := restored_setAutoCommit (ε := ε) hclosed c.autoCommit
  refine ⟨r, c₃, ?_, ?_, hauto, hclosed₃⟩
  · have hget : exec (getAutoCommit (ε := ε)) c = (.ok c.autoCommit, c) := rfl
    rw [withTransaction, exec_bind_ok hget, andFinally, exec_of, hexec]
    dsimp only
    rw [hset]
  · cases r with
    | ok a => exact hattempted.trans (congrArg (Prod.mk _) hdatabase.symm)
    | error e => exact hdatabase.trans hattempted

/-- **Writes are atomic and not duplicated**: whatever calls throw, and what, the caller sees a failure and the database is
as it was, or sees success and one complete run of the block is in it; it is run on the transaction that was open before,
or, where that was rolled back, on the database as it was. -/
theorem withRecoverableTransaction_atomic (isSQLRecoverableException : ε → Bool) (code : Program ε δ α) (c : Connection δ) :
    ∃ r c', exec (withRecoverableTransaction faults isSQLRecoverableException code) c = (r, c') ∧ Restored c c' ∧
      ((∃ e, r = .error e ∧ c'.database = c.database) ∨
        ∃ a before, r = .ok (.ok a) ∧ (before = c.current ∨ before = c.database) ∧
          exec code.run before = (.ok a, c'.database)) := by
  obtain ⟨r₁, c₁, hexec₁, hattempted₁, hrestored₁⟩ := exec_withTransaction faults code c
  have hfirst : exec (withTransaction faults code >>= Try.apply) c = (r₁, c₁) := by
    rw [exec_bind_ok hexec₁]
    cases r₁ <;> rfl
  rw [withRecoverableTransaction, withRecoverableRetry, exec_tryCatch, exec_map, hfirst]
  cases r₁ with
  | ok a => exact ⟨_, c₁, rfl, hrestored₁, Or.inr ⟨a, c.current, rfl, Or.inl rfl, hattempted₁⟩⟩
  | error e =>
    dsimp only [Except.map]
    split
    · obtain ⟨r₂, c₂, hexec₂, hattempted₂, hrestored₂⟩ := exec_withTransaction faults code c₁
      have hsecond : exec (withTransaction faults code >>= Try.apply) c₁ = (r₂, c₂) := by
        rw [exec_bind_ok hexec₂]
        cases r₂ <;> rfl
      rw [exec_map, hsecond]
      have hrestored : Restored c c₂ := ⟨hrestored₂.autoCommit.trans hrestored₁.autoCommit, hrestored₂.closed⟩
      cases r₂ with
      | ok a =>
        refine ⟨_, c₂, rfl, hrestored, Or.inr ⟨a, c.database, rfl, Or.inr rfl, ?_⟩⟩
        rw [← hattempted₁, ← hrestored₁.closed]
        exact hattempted₂
      | error e' => exact ⟨_, c₂, rfl, hrestored, Or.inl ⟨e', rfl, hattempted₂.trans hattempted₁⟩⟩
    · exact ⟨_, c₁, rfl, hrestored₁, Or.inl ⟨e, rfl, hattempted₁⟩⟩

theorem exec_pooled_none {isSQLRecoverableException : ε → Bool} {code : Program ε δ α} {database database' : δ} {a : α}
    (h : exec code.run database = (.ok a, database')) :
    exec (withPooledConnection (withRecoverableTransaction (fun _ => none) isSQLRecoverableException code)) database =
      (.ok (.ok a), database') := by
  obtain ⟨r, c', hexec, hattempted, -⟩ := exec_withTransaction (fun _ => none) code (.pooled database)
  obtain ⟨c₁, hset, -, hcurrent₁, -⟩ := exec_setAutoCommit_false (ε := ε) (.pooled database)
  obtain ⟨c₂, hrun, -⟩ := exec_runOn_none code c₁
  have hcurrent : c₁.current = database := hcurrent₁
  rw [hcurrent, h] at hrun
  have hget : exec (getAutoCommit (ε := ε)) (.pooled database) = (.ok true, .pooled database) := rfl
  have hcommit : exec (commit (ε := ε) fun _ => none) c₂ = (.ok (), _) := rfl
  have hok : (exec (withTransaction (fun _ => none) code) (.pooled database)).1 = .ok (.ok a) := by
    rw [withTransaction, exec_bind_ok hget, andFinally, exec_of, exec_tryCatch, exec_bind_ok hset, exec_bind_ok hrun,
      exec_bind_ok hcommit]
    rfl
  rw [hexec] at hok
  obtain rfl : r = .ok a := Except.ok.inj hok
  have hdatabase : database' = c'.database := congrArg Prod.snd (h.symm.trans hattempted)
  rw [withPooledConnection, exec_of, withRecoverableTransaction, withRecoverableRetry, exec_tryCatch, exec_map,
    exec_bind_ok hexec, hdatabase]
  rfl

theorem exec_attempt (code : Program ε δ α) (c : Connection δ) : ∃ r c',
    exec (withTransaction faults code >>= Try.apply) c = (r, c') ∧ Attempted code c c' r ∧ Restored c c' := by
  obtain ⟨r, c', hexec, hattempted, hrestored⟩ := exec_withTransaction faults code c
  refine ⟨r, c', ?_, hattempted, hrestored⟩
  rw [exec_bind_ok hexec]
  cases r <;> rfl

/-- **On a connection of the pool**, the block is in the database once, or not at all and the caller sees a failure. -/
theorem exec_pooled_cases (isSQLRecoverableException : ε → Bool) (code : Program ε δ α) (database : δ) :
    (∃ e, exec (withPooledConnection (withRecoverableTransaction faults isSQLRecoverableException code)) database =
      (.error e, database)) ∨ ∃ a database', exec code.run database = (.ok a, database') ∧
        exec (withPooledConnection (withRecoverableTransaction faults isSQLRecoverableException code)) database =
          (.ok (.ok a), database') := by
  obtain ⟨r, c, hfirst, hattempted, hrestored⟩ := exec_attempt faults code (.pooled database)
  rw [withPooledConnection, exec_of, withRecoverableTransaction, withRecoverableRetry, exec_tryCatch, exec_map, hfirst]
  cases r with
  | ok a => exact Or.inr ⟨a, c.database, hattempted, rfl⟩
  | error e =>
    have hdatabase : c.database = database := hattempted
    dsimp only [Except.map]
    split
    · obtain ⟨r', c', hsecond, hattempted', -⟩ := exec_attempt faults code c
      rw [exec_map, hsecond]
      cases r' with
      | ok a =>
        have hrun : exec code.run c.current = (.ok a, c'.database) := hattempted'
        rw [hrestored.closed, hdatabase] at hrun
        exact Or.inr ⟨a, c'.database, hrun, rfl⟩
      | error e' =>
        have hdatabase' : c'.database = c.database := hattempted'
        exact Or.inl ⟨e', congrArg (Prod.mk _) (hdatabase'.trans hdatabase)⟩
    · exact Or.inl ⟨e, congrArg (Prod.mk _) hdatabase⟩

end DB
end Zipkin
