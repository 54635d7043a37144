import Assortment.Storage.Server
import Mathlib.Data.List.Forall2

/-!
# What a commit exchanges with a server

A server can be asked through one that notes every statement with the answer to it. Whatever a server
answers, what is noted over the commit of a plan takes one of five courses, and from these the order of the
statements, the place of the commit and the result can be read off.
-/

namespace Assortment.Storage

/-! ## Exchanges -/

/-- A statement that a server was asked, with what it answered. -/
abbrev Exchange := Statement × Except Fault Answer

namespace Server

/-- The server that notes what is exchanged with it. -/
def noting {σ : Type} (server : Server σ) : Server (σ × List Exchange) where
  answer statement s :=
    ((server.answer statement s.1).1, (server.answer statement s.1).2,
      s.2 ++ [(statement, (server.answer statement s.1).1)])

/-- What is exchanged with a server over the commit of a plan. -/
def exchanges {σ : Type} (server : Server σ) (plan : Plan) (s : σ) : List Exchange :=
  (server.noting.apply plan (s, [])).2.2

end Server

namespace Mutation

/-- An update without columns, of which no statement can be made. -/
def IsVoid (m : Mutation) : Prop := m.kind = .update ∧ m.values = []

/-- Why a plan does not go on after the answer to a mutation, if it does not. -/
def failure? (m : Mutation) : Except Fault Answer → Option StorageError
  | .error fault =>
      if m.kind = .insert ∧ fault.isUniqueViolation = true then some (.keyTaken m.table m.key.written)
      else some (.database fault)
  | .ok answer =>
      if m.kind = .update ∧ answer.affected = 0 then some (.noSuchRow m.table m.key.written) else none

/-- Whether an exchange sends a mutation and lets the plan go on. -/
structure Passes (m : Mutation) (x : Exchange) : Prop where
  statement : x.1 = m.statement
  notVoid : ¬ m.IsVoid
  reply : m.failure? x.2 = none

/-- The ways in which a mutation can end a plan, with what is exchanged over it. -/
inductive Fails (m : Mutation) : List Exchange → StorageError → Prop where
  | void : m.IsVoid → Fails m [] (.nothingToWrite m.table m.key.written)
  | refused {reply : Except Fault Answer} {e : StorageError} : ¬ m.IsVoid → m.failure? reply = some e →
      Fails m [(m.statement, reply)] e

end Mutation

/-- What is exchanged over mutations up to the first that fails, and what they come to. -/
inductive Sends (ms : List Mutation) : List Exchange → Except StorageError Unit → Prop where
  | all {sent : List Exchange} : List.Forall₂ Mutation.Passes ms sent → Sends ms sent (.ok ())
  | upTo {done later : List Mutation} {m : Mutation} {sent last : List Exchange} {e : StorageError} :
      ms = done ++ m :: later → List.Forall₂ Mutation.Passes done sent → m.Fails last e →
      Sends ms (sent ++ last) (.error e)

variable {σ : Type} {m : Mutation} {ms : List Mutation} {plan : Plan} {x : Exchange}
  {log sent : List Exchange} {result : Except StorageError Unit} {e : StorageError}

theorem Sends.cons (hm : m.Passes x) (h : Sends ms sent result) : Sends (m :: ms) (x :: sent) result := by
  cases h with
  | all hall => exact .all (.cons hm hall)
  | @upTo done _ _ _ _ _ hms hdone hlast =>
      subst hms
      exact .upTo (List.cons_append.symm) (.cons hm hdone) hlast

theorem Sends.of_fails (h : m.Fails sent e) : Sends (m :: ms) sent (.error e) :=
  .upTo (List.nil_append _).symm .nil h

theorem Mutation.ne_of_statement_eq {m : Mutation} {statement : Statement} (h : statement = m.statement) :
    statement ≠ .begin ∧ statement ≠ .commit := by
  subst h
  unfold Mutation.statement
  split <;> simp

theorem Sends.ne (h : Sends ms sent result) (hx : x ∈ sent) : x.1 ≠ .begin ∧ x.1 ≠ .commit := by
  have hpasses : ∀ {ms sent}, List.Forall₂ Mutation.Passes ms sent → ∀ x ∈ sent,
      x.1 ≠ .begin ∧ x.1 ≠ .commit := by
    intro ms sent h
    induction h with
    | nil => simp
    | cons hm _ ih =>
        exact List.forall_mem_cons.2 ⟨Mutation.ne_of_statement_eq hm.statement, ih⟩
  cases h with
  | all hall => exact hpasses hall x hx
  | upTo _ hdone hlast =>
      rcases List.mem_append.1 hx with hx | hx
      · exact hpasses hdone x hx
      · cases hlast with
        | void _ => cases hx
        | refused _ _ =>
            cases List.mem_singleton.1 hx
            exact Mutation.ne_of_statement_eq rfl

/-! ## Sending -/

namespace Server

variable (server : Server σ) (s : σ)

theorem noting_answer (statement : Statement) (log : List Exchange) :
    server.noting.answer statement (s, log) = ((server.answer statement s).1,
      (server.answer statement s).2, log ++ [(statement, (server.answer statement s).1)]) :=
  rfl

theorem execute_of_isVoid (h : m.IsVoid) :
    server.execute m s = (.error (.nothingToWrite m.table m.key.written), s) := by
  simp [execute, h.1, h.2]

theorem execute_of_not_isVoid (h : ¬ m.IsVoid) : server.execute m s =
    (match m.failure? (server.answer m.statement s).1 with
      | some e => .error e
      | none => .ok (), (server.answer m.statement s).2) := by
  unfold execute
  cases hk : m.kind with
  | insert => rcases server.answer m.statement s with ⟨_ | _, _⟩ <;> simp [Mutation.failure?, hk]; grind
  | update =>
      have hv : m.values ≠ [] := fun hv => h ⟨hk, hv⟩
      rcases server.answer m.statement s with ⟨_ | _, _⟩ <;> simp [Mutation.failure?, hk, hv]; grind

/-- A mutation either passes or fails, and nothing else is exchanged over it. -/
theorem noting_execute (m : Mutation) (log : List Exchange) :
    ∃ sent, server.noting.execute m (s, log)
        = ((server.execute m s).1, (server.execute m s).2, log ++ sent)
      ∧ ((∃ x, sent = [x] ∧ m.Passes x ∧ (server.execute m s).1 = .ok ())
        ∨ ∃ e, m.Fails sent e ∧ (server.execute m s).1 = .error e) := by
  by_cases hv : m.IsVoid
  · refine ⟨[], ?_, .inr ⟨_, .void hv, by rw [execute_of_isVoid server s hv]⟩⟩
    simp [execute_of_isVoid _ _ hv]
  · refine ⟨[(m.statement, (server.answer m.statement s).1)], ?_, ?_⟩
    · rw [execute_of_not_isVoid _ _ hv, execute_of_not_isVoid server s hv]
      rfl
    · rw [execute_of_not_isVoid server s hv]
      cases hf : m.failure? (server.answer m.statement s).1 with
      | none => exact .inl ⟨_, rfl, ⟨rfl, hv, hf⟩, rfl⟩
      | some e => exact .inr ⟨e, .refused hv hf, rfl⟩

theorem noting_executeAll (ms : List Mutation) (log : List Exchange) :
    ∃ sent, server.noting.executeAll ms (s, log)
        = ((server.executeAll ms s).1, (server.executeAll ms s).2, log ++ sent)
      ∧ Sends ms sent (server.executeAll ms s).1 := by
  induction ms generalizing s log with
  | nil => exact ⟨[], by simp [executeAll], .all .nil⟩
  | cons m ms ih =>
      obtain ⟨sent, hnoting, ⟨x, rfl, hpasses, hok⟩ | ⟨e, hfails, herror⟩⟩ := server.noting_execute s m log
      · obtain ⟨rest, hrest, hsends⟩ := ih (server.execute m s).2 (log ++ [x])
        rcases he : server.execute m s with ⟨result, after⟩
        rw [he] at hnoting hok hrest hsends
        cases hok
        refine ⟨x :: rest, ?_, ?_⟩
        · simp [executeAll, hnoting, he, hrest]
        · simpa [executeAll, he] using hsends.cons hpasses
      · rcases he : server.execute m s with ⟨result, after⟩
        rw [he] at hnoting herror
        cases herror
        refine ⟨sent, ?_, ?_⟩
        · simp [executeAll, hnoting, he]
        · simpa [executeAll, he] using Sends.of_fails hfails

end Server

/-! ## Courses -/

/-- How a transaction is closed after its mutations came to an outcome, and with what result. -/
inductive Closes : Except StorageError Unit → List Exchange → Except StorageError Unit → Prop where
  | abandoned {e : StorageError} {reply : Except Fault Answer} :
      Closes (.error e) [(.rollback, reply)] (.error e)
  | acknowledged {answer : Answer} : Closes (.ok ()) [(.commit, .ok answer)] (.ok ())
  | unacknowledged {fault : Fault} {reply : Except Fault Answer} :
      Closes (.ok ()) [(.commit, .error fault), (.rollback, reply)] (.error (.database fault))

/-- The courses that the commit of a plan can take, with what is exchanged and the result. -/
inductive Course (plan : Plan) : List Exchange → Except StorageError Unit → Prop where
  | idle : plan.mutations = [] → Course plan [] (.ok ())
  | unopened {fault : Fault} : plan.mutations ≠ [] →
      Course plan [(.begin, .error fault)] (.error (.database fault))
  | opened {answer : Answer} {sent closing : List Exchange} {outcome result : Except StorageError Unit} :
      plan.mutations ≠ [] → Sends plan.mutations sent outcome → Closes outcome closing result →
      Course plan ((.begin, .ok answer) :: (sent ++ closing)) result

theorem Server.noting_apply (server : Server σ) (plan : Plan) (s : σ) :
    ∃ log, server.noting.apply plan (s, []) = ((server.apply plan s).1, (server.apply plan s).2, log)
      ∧ Course plan log (server.apply plan s).1 := by
  by_cases hp : plan.mutations = []
  · exact ⟨[], by simp [apply, Plan.isEmpty, hp], by simpa [apply, Plan.isEmpty, hp] using .idle hp⟩
  rcases hb : server.answer .begin s with ⟨fault | opened, begun⟩
  · refine ⟨[(.begin, .error fault)], ?_, ?_⟩
    · simp [apply, Plan.isEmpty, hp, noting_answer, hb]
    · simpa [apply, Plan.isEmpty, hp, hb] using .unopened hp
  obtain ⟨sent, hnoting, hsends⟩ := server.noting_executeAll begun plan.mutations [(.begin, .ok opened)]
  rcases he : server.executeAll plan.mutations begun with ⟨e | _, ended⟩ <;> rw [he] at hnoting hsends
  · refine ⟨(.begin, .ok opened) :: (sent ++ [(.rollback, (server.answer .rollback ended).1)]), ?_, ?_⟩
    · simp [apply, Plan.isEmpty, hp, noting_answer, hb, he, abort, hnoting]
    · simpa [apply, Plan.isEmpty, hp, hb, he, abort] using .opened hp hsends .abandoned
  · rcases hc : server.answer .commit ended with ⟨fault | closed, closing⟩
    · refine ⟨(.begin, .ok opened) :: (sent
        ++ [(.commit, .error fault), (.rollback, (server.answer .rollback closing).1)]), ?_, ?_⟩
      · simp [apply, Plan.isEmpty, hp, noting_answer, hb, he, hc, abort, hnoting]
      · simpa [apply, Plan.isEmpty, hp, hb, he, hc, abort] using .opened hp hsends .unacknowledged
    · refine ⟨(.begin, .ok opened) :: (sent ++ [(.commit, .ok closed)]), ?_, ?_⟩
      · simp [apply, Plan.isEmpty, hp, noting_answer, hb, he, hc, hnoting]
      · simpa [apply, Plan.isEmpty, hp, hb, he, hc] using .opened hp hsends .acknowledged

/-! ## The protocol -/

/-- What can be read off what is exchanged over the commit of a plan. -/
structure Protocol (plan : Plan) (log : List Exchange) (result : Except StorageError Unit) : Prop where
  /-- An empty plan sends nothing. -/
  idle : plan.mutations = [] → log = [] ∧ result = .ok ()
  /-- Any other first opens its one transaction. -/
  opened : plan.mutations ≠ [] → ∃ reply rest, log = (.begin, reply) :: rest ∧ ∀ x ∈ rest, x.1 ≠ .begin
  /-- When it cannot be opened, nothing follows. -/
  unopened : ∀ fault rest, log = (.begin, .error fault) :: rest →
    rest = [] ∧ result = .error (.database fault)
  /-- Once it is open the mutations are sent in order up to the first that fails, and a commit follows
  exactly when none does. The error is that of the mutation that failed. -/
  sent : ∀ answer rest, log = (.begin, .ok answer) :: rest → ∃ sent closing outcome,
    rest = sent ++ closing ∧ Sends plan.mutations sent outcome
      ∧ (∀ x ∈ closing, x.1 = .commit ∨ x.1 = .rollback)
      ∧ ((∃ reply, (.commit, reply) ∈ log) ↔ outcome = .ok ())
      ∧ ∀ e, outcome = .error e → result = .error e
  /-- A plan is reported as committed exactly when the server acknowledged that. -/
  acknowledged : result = .ok () ↔ plan.mutations = [] ∨ ∃ answer, (.commit, .ok answer) ∈ log
  unacknowledged : ∀ fault, (.commit, .error fault) ∈ log → result = .error (.database fault)

namespace Closes

variable {outcome : Except StorageError Unit} {closing : List Exchange}

theorem closing_eq (h : Closes outcome closing result) : ∀ x ∈ closing, x.1 = .commit ∨ x.1 = .rollback := by
  cases h <;> simp

theorem commit_iff (h : Closes outcome closing result) :
    (∃ reply, (.commit, reply) ∈ closing) ↔ outcome = .ok () := by
  cases h <;> simp

theorem result_eq_ok_iff (h : Closes outcome closing result) :
    result = .ok () ↔ ∃ answer, (.commit, .ok answer) ∈ closing := by
  cases h <;> simp

theorem result_eq_error (h : Closes outcome closing result) :
    (∀ e, outcome = .error e → result = .error e)
      ∧ ∀ fault, (.commit, .error fault) ∈ closing → result = .error (.database fault) := by
  cases h <;> simp

end Closes

theorem Course.protocol (h : Course plan log result) : Protocol plan log result := by
  cases h with
  | idle hp => exact ⟨fun _ => ⟨rfl, rfl⟩, fun hne => absurd hp hne, nofun, nofun, by simp [hp], by simp⟩
  | unopened hp =>
      refine ⟨fun he => absurd he hp, fun _ => ⟨_, _, rfl, by simp⟩, ?_, nofun, by simp [hp], by simp⟩
      intro fault rest he
      cases he
      exact ⟨rfl, rfl⟩
  | @opened answer sent closing outcome result hp hs hc =>
      -- A commit is never among the mutations that were sent, so it is looked for in the rest.
      have hmem : ∀ reply, (.commit, reply) ∈ (.begin, .ok answer) :: (sent ++ closing)
          ↔ (.commit, reply) ∈ closing := by
        intro reply
        have hnot : (.commit, reply) ∉ sent := fun hx => (hs.ne hx).2 rfl
        simp [hnot]
      refine ⟨fun he => absurd he hp, fun _ => ⟨_, _, rfl, fun x hx => ?_⟩, nofun, ?_, ?_, ?_⟩
      · rcases List.mem_append.1 hx with hx | hx
        · exact (hs.ne hx).1
        · rcases hc.closing_eq x hx with he | he <;> simp [he]
      · intro _ rest he
        cases he
        refine ⟨sent, closing, outcome, rfl, hs, hc.closing_eq, ?_, hc.result_eq_error.1⟩
        simpa only [hmem] using hc.commit_iff
      · simpa only [hmem, hp, false_or] using hc.result_eq_ok_iff
      · simpa only [hmem] using hc.result_eq_error.2

/-- Whatever a server answers, the commit of a plan keeps to the protocol. -/
theorem Server.apply_protocol (server : Server σ) (plan : Plan) (s : σ) :
    (server.noting.apply plan (s, [])).1 = (server.apply plan s).1
      ∧ (server.noting.apply plan (s, [])).2.1 = (server.apply plan s).2
      ∧ Protocol plan (server.exchanges plan s) (server.apply plan s).1 := by
  obtain ⟨log, hnoting, hcourse⟩ := server.noting_apply plan s
  simp [exchanges, hnoting, hcourse.protocol]

end Assortment.Storage
