import Conform.Validation.Run

/-!
# What a computation does to a run

`exec` applies a computation to a run and gives its outcome beside the run it leaves. The lemmas give
one equation for each way a computation is put together.
-/

namespace Conform

theorem bind_eq_ok {α β : Type} {x : Except Fault α} {g : α → Except Fault β} {b : β} :
    x >>= g = .ok b ↔ ∃ a, x = .ok a ∧ g a = .ok b := by
  cases x <;> simp [bind, Except.bind]

namespace Run

variable (f : Journal Pending Report → Journal Pending Report) (r : Run)

@[simp] theorem journal_onJournal : (r.onJournal f).journal = f r.journal := rfl

@[simp] theorem caches_onJournal : (r.onJournal f).caches = r.caches := rfl

@[simp] theorem copies_onJournal : (r.onJournal f).copies = r.copies := rfl

end Run

namespace Eval

variable {α β : Type}

def exec (x : Eval α) (r : Run) : Except Fault α × Run := x.run.run r

/-- Where a computation goes on with what another one has left. -/
def andThen (g : α → Eval β) : Except Fault α × Run → Except Fault β × Run
  | (.ok a, r) => (g a).exec r
  | (.error f, r) => (.error f, r)

@[simp] theorem andThen_ok (g : α → Eval β) (a : α) (r : Run) : andThen g (.ok a, r) = (g a).exec r := rfl

@[simp] theorem andThen_error (g : α → Eval β) (f : Fault) (r : Run) :
    andThen g (.error f, r) = (.error f, r) := rfl

@[simp] theorem exec_pure (a : α) (r : Run) : (pure a : Eval α).exec r = (.ok a, r) := rfl

@[simp] theorem exec_throw (f : Fault) (r : Run) : (throw f : Eval α).exec r = (.error f, r) := rfl

theorem exec_bind (x : Eval α) (g : α → Eval β) (r : Run) :
    (x >>= g).exec r = andThen g (x.exec r) := by
  unfold exec ExceptT.run StateT.run
  simp only [bind, ExceptT.bind, ExceptT.mk, StateT.bind]
  rcases x r with ⟨outcome, s⟩
  cases outcome <;> rfl

/-- A computation that succeeds has succeeded in both its halves. -/
theorem bind_ok {x : Eval α} {g : α → Eval β} {b : β} {r r' : Run}
    (succeeds : (x >>= g).exec r = (.ok b, r')) :
    ∃ a s, x.exec r = (.ok a, s) ∧ (g a).exec s = (.ok b, r') := by
  rw [exec_bind] at succeeds
  rcases ran : x.exec r with ⟨f | a, s⟩
  · simp [ran] at succeeds
  · exact ⟨a, s, rfl, by simpa [ran] using succeeds⟩

@[simp] theorem exec_get (r : Run) : (get : Eval Run).exec r = (.ok r, r) := rfl

@[simp] theorem exec_modify (g : Run → Run) (r : Run) :
    (modify g : Eval Unit).exec r = (.ok (), g r) := rfl

@[simp] theorem exec_lift (x : Except Fault α) (r : Run) : (liftM x : Eval α).exec r = (x, r) := rfl

theorem lift_ok_bind (a : α) (g : α → Eval β) : (liftM (Except.ok a : Except Fault α) >>= g) = g a := rfl

theorem lift_error_bind (f : Fault) (g : α → Eval β) :
    (liftM (Except.error f : Except Fault α) >>= g) = throw f := rfl

theorem lift_bind (x : Except Fault α) (g : α → Except Fault β) :
    (liftM (x >>= g) : Eval β) = liftM x >>= fun a => liftM (g a) := by
  cases x <;> rfl

theorem exec_map (g : α → β) (x : Eval α) (r : Run) :
    (g <$> x).exec r = andThen (fun a => pure (g a)) (x.exec r) := by
  rw [map_eq_pure_bind]
  exact exec_bind x _ r

theorem exec_tryCatch (x : Eval α) (recover : Fault → Eval α) (r : Run) :
    (tryCatch x recover).exec r = match x.exec r with
      | (.ok a, s) => (.ok a, s)
      | (.error f, s) => (recover f).exec s := by
  simp only [tryCatch, tryCatchThe, MonadExceptOf.tryCatch]
  unfold exec ExceptT.run StateT.run
  simp only [ExceptT.tryCatch, ExceptT.mk, bind, StateT.bind]
  rcases x r with ⟨outcome, s⟩
  cases outcome <;> rfl

theorem ext {x y : Eval α} (same : ∀ r, x.exec r = y.exec r) : x = y := funext same

/-- Returning from both arms of a catch, as `do` notation writes it. -/
theorem catch_return (x : Eval α) (g : α → β) (k : Fault → β) :
    ((tryCatch (x >>= fun a => (EarlyReturnT.return (g a) : EarlyReturnT β Eval β))
      fun f => (EarlyReturnT.return (k f) : EarlyReturnT β Eval β) : Eval (Except β β)) >>=
        fun e => EarlyReturn.runK e (fun b => pure b) fun b => pure b) =
      tryCatch (g <$> x) fun f => pure (k f) := by
  apply ext
  intro r
  rw [exec_bind, exec_tryCatch, exec_tryCatch, exec_bind, exec_map]
  rcases x.exec r with ⟨outcome, s⟩
  cases outcome <;> rfl

/-- A computation without a trace keeps the journal that it found, whatever was written to it. -/
theorem exec_withoutTrace (x : Eval α) (r : Run) :
    (withoutTrace x).exec r =
      ((x.exec (r.onJournal Journal.snapshot)).1,
        (x.exec (r.onJournal Journal.snapshot)).2.onJournal fun j => j.restore?.getD j) := rfl

end Eval

end Conform
