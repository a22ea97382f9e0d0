import Danus.Coordination.StoreRules

/-! The integrity audit along the runs of the store, and the order of calls that defeats it. -/
namespace Danus.Coordination
open Python Transaction Machines

section Runs

/-- The database after these calls, one after another. -/
def CoordinationStore.performAll (S : CoordinationStore) (db : Database) : List StoreCall → Database
  | [] => db
  | call :: calls => S.performAll (S.perform call db).2 calls

/-- The databases these calls pass through, newest first. -/
def CoordinationStore.trace (S : CoordinationStore) (db : Database) (past : List Database) :
    List StoreCall → List Database
  | [] => db :: past
  | call :: calls => S.trace (S.perform call db).2 (db :: past) calls

/-- The text a call failed with. -/
def Outcome.failure (o : Outcome) : Option String :=
  match o.1 with
  | .ok _ => none
  | .error e => some e.message

/-- A call at a finite time that marks no slot ambiguous. -/
def StoreCall.quiet : StoreCall → Bool
  | .markAmbiguous .. => false
  | .admitWorker _ _ now | .activate _ now | .complete _ _ now _ | .terminalizeCandidate _ _ _ _ now
  | .resolveCandidateOutcomeUnknown _ _ _ _ now => now.all (·.isFinite)
  | _ => true

variable {S : CoordinationStore} {db : Database} {calls : List StoreCall}

theorem StoreCall.quiet.not_disturbs {call : StoreCall} {t : Tables} (h : call.quiet = true) :
    ¬ S.Disturbs t call := by
  intro hd
  cases hd with
  | unpinned => cases h
  | endless ha hf _ =>
    cases call <;> simp only [StoreCall.attempt, Option.map_eq_some_iff, reduceCtorEq,
      Option.some.injEq, Prod.mk.injEq] at ha
    all_goals
      obtain ⟨_, _, _, rfl⟩ := ha
      simp [StoreCall.quiet, hf] at h

/-- A run may go on with any list of calls. -/
theorem reachable_performAll (h : S.machine.Reachable db) :
    S.machine.Reachable (S.performAll db calls) := by
  induction calls generalizing db with
  | nil => exact h
  | cons call calls ih => exact ih (h.next (i := call) rfl)

theorem trace_cons (past : List Database) :
    S.trace db past calls = S.performAll db calls :: (S.trace db past calls).tail := by
  induction calls generalizing db past with
  | nil => rfl
  | cons call calls ih => exact ih _

theorem history_trace {ok : List Database → StoreCall → Prop} {past : List Database}
    (h : S.machine.History ok (db :: past)) (hok : ∀ call ∈ calls, ∀ l, ok l call) :
    S.machine.History ok (S.trace db past calls) := by
  induction calls generalizing db past with
  | nil => exact h
  | cons call calls ih =>
    apply ih (h.step (hok call List.mem_cons_self _) rfl)
    exact fun c hc => hok c (List.mem_cons_of_mem _ hc)

theorem undisturbed_performAll (h : S.machine.Reaches S.Undisturbed db)
    (hq : ∀ call ∈ calls, call.quiet = true) :
    S.machine.Reaches S.Undisturbed (S.performAll db calls) := by
  induction calls generalizing db with
  | nil => exact h
  | cons call calls ih =>
    obtain ⟨past, hp⟩ := h
    apply ih
    · refine ⟨db :: past, hp.step (i := call) ?_ rfl⟩
      rintro _ ⟨⟩
      exact StoreCall.quiet.not_disturbs (hq call List.mem_cons_self)
    · exact fun c hc => hq c (List.mem_cons_of_mem _ hc)

end Runs

variable {S : CoordinationStore} {db : Database}

/-- What the audit is for: it passes, the database can be opened again, and no call on a slot
fails on a binding. -/
structure CoordinationStore.Intact (S : CoordinationStore) (db : Database) : Prop where
  audit : S.auditTaskBindings db.1 = .ok ()
  reopens : S.perform .reopen db = (.ok .done, db)
  serves : ∀ call e, ¬ S.Disturbs db.1 call → call.stages db.1 = false →
    (S.perform call db).1 = .error e → e.isBinding = false

/-- Every database of a run that never marks an unpinned slot ambiguous and never ends a
generation at an infinite time is intact. -/
theorem intact_of_undisturbed (h : S.machine.Reaches S.Undisturbed db) : S.Intact db := by
  obtain ⟨hc, ha⟩ := audited_of_undisturbed h
  refine ⟨(hc.audit_iff db.2).mpr ha, ?_, fun call e hd hs he => ?_⟩
  · simp only [CoordinationStore.perform, committed]
    rcases Tx.wp_run (openExisting_rule hc) with ⟨_, _, hx, rfl⟩ | ⟨_, _, _, hna⟩
    · rw [hx]
      rfl
    · exact (hna ha).elim
  · have hserved : Served S call True db (S.perform call db) := perform_rule hc fun _ => hd
    exact (hserved.2 e he).bound trivial ha hs

/-- Two lanes, root and critic. -/
def pairStore : CoordinationStore where
  config := ⟨2, 60, by decide, by decide, by decide, by decide⟩
  roster := ⟨"root".toList, some "critic".toList, [], by decide, by decide⟩
  rosterDigest := "pair".toList
  lanes_le := by decide

/-- The pair's database when it is created. -/
def pairDatabase : Database := ⟨pairStore.initialTables 0, by decide +kernel⟩

theorem pair_start : pairStore.machine.start pairDatabase := ⟨0, rfl⟩

/-- Both lanes staged, and the root's slot admitted. -/
def admitRoot : List StoreCall :=
  [.stageTaskAssignment "root".toList "left".toList (some (.fin 1)),
    .stageTaskAssignment "critic".toList "right".toList (some (.fin 1)),
    .admitWorker "root".toList "a".toList (some (.fin 2))]

theorem intact_of_undisturbed_pair : pairStore.Intact (pairStore.performAll pairDatabase admitRoot) :=
  intact_of_undisturbed (undisturbed_performAll ⟨[], .start pair_start⟩ (by decide))

/-- The admitted slot is marked ambiguous before its prompt is pinned. -/
def unpinnedAmbiguous : Database :=
  pairStore.performAll pairDatabase (admitRoot ++ [.markAmbiguous "slot_a".toList 3])

/-- The call commits, and the next open and the slot's own completion fail. -/
theorem unpinnedAmbiguous_unaudited :
    pairStore.machine.Reachable unpinnedAmbiguous ∧
    (pairStore.perform (.markAmbiguous "slot_a".toList 3)
      (pairStore.performAll pairDatabase admitRoot)).failure = none ∧
    (pairStore.perform .reopen unpinnedAmbiguous).failure =
      some "dispatched round slot has no pinned prompt" ∧
    (pairStore.perform (.complete "slot_a".toList "done".toList (some (.fin 4)) 4)
      unpinnedAmbiguous).failure = some "dispatched round slot has no pinned prompt" := by
  refine ⟨reachable_performAll (Machine.reachable_start pair_start), ?_⟩
  decide +kernel

end Danus.Coordination
