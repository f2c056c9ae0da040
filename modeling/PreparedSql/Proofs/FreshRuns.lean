import PreparedSql.Proofs.SessionHistory

/-!
# What a session runs is fresh

Between the call of a session and the statement that is run stand the compiled queries, which may
be shared, the prepared statements, and a second run after a stale failure.  None of them shows: as
long as no two nodes share a key, the runs that succeed are those of the calls that are served, one
for each and in order, with the text that a fresh render of the node gives and the values of the
call itself (`serves_are_fresh`).

* `answer_fresh`: the compiled query has the text and the slots of a fresh render.
* `serves_perform`: one call adds one run that succeeded, or none.
-/

namespace PreparedSql

variable {κ : Type} {T : κ → Type} {σ η : Type}

/-! ### Nodes apart -/

/-- Calls with one key are of one node. -/
def NodesApart (calls : List CompileCall) : Prop :=
  ∀ p ∈ calls, ∀ q ∈ calls, p.key = q.key → p.node = q.node

theorem NodesApart.mono {calls calls' : List CompileCall} (h : NodesApart calls')
    (hs : calls ⊆ calls') : NodesApart calls :=
  fun p hp q hq => h p (hs hp) q (hs hq)

/-- Neither the text nor the slots depend on the destination. -/
theorem CompileCall.fresh_congr {p q : CompileCall} (hc : p.context = q.context)
    (hn : p.node = q.node) :
    (p.fresh.map fun r => (r.sql, r.slots)) = q.fresh.map fun r => (r.sql, r.slots) := by
  unfold fresh
  rw [hc, hn]
  cases q.node.render q.context <;> rfl

namespace CompilerHistory

/-- The text and the slots of an answer are those of a fresh render of the call. -/
theorem answer_fresh {h : List CompilerStep} {call : CompileCall}
    (context : ∀ p ∈ calls h, p.context = call.context) (apart : NodesApart (calls h ++ [call])) :
    (((QueryCache.after h).answer call).1.map fun stored =>
        (stored.query.sql, stored.query.slots)) =
      call.fresh.map fun q => (q.sql, q.slots) := by
  rcases (QueryCache.after h).answer_cases call with ⟨found, -, e⟩ | ⟨-, err, failed, e⟩ |
    ⟨-, q, rendered, e⟩
  · have answered : ((QueryCache.after h).answer call).1 = .ok found := congrArg Prod.fst e
    obtain ⟨source, hm, key, rendered, -⟩ := source_of_answer answered
    have mem : source ∈ calls h ++ [call] :=
      List.mem_append.2 ((List.mem_append.1 hm).imp_left mem_calls_of_mem_sinceClear)
    have same : source.context = call.context := by
      rcases List.mem_append.1 mem with hm | hm
      · exact context source hm
      · rw [List.mem_singleton.1 hm]
    have node := apart source mem call (List.mem_append_right _ (List.mem_singleton_self _)) key
    rw [e, ← CompileCall.fresh_congr same node, rendered]
    rfl
  · rw [e, failed]
    rfl
  · rw [e, rendered]
    rfl

end CompilerHistory

/-- A text with the values for its slots. -/
def Bindings.fill (b : Bindings) (t : String × List Slot) : Except Error (String × List Value) :=
  (b.resolve t.2).map fun args => (t.1, args)

/-- The text and the values that a fresh render of the node gives. -/
def Ask.fresh (a : Ask) : Except Error (String × List Value) :=
  (a.call.fresh.map fun q => (q.sql, q.slots)).bind a.bindings.fill

namespace Session

section Compiled

variable {s : Session T σ η} {a : Ask} {h : List CompilerStep}

/-- What an ask has compiled and given values is what a fresh render gives. -/
theorem compiled_fresh (queries : s.caches.queries = .after h)
    (context : ∀ p ∈ CompilerHistory.calls h, p.context = a.call.context)
    (apart : NodesApart (CompilerHistory.calls h ++ [a.call])) :
    ((s.compiled a).map fun p => (p.1.sql, p.2)) = a.fresh := by
  have filled : ((s.compiled a).map fun p => (p.1.sql, p.2)) =
      (((QueryCache.after h).answer a.call).1.map fun stored =>
        (stored.query.sql, stored.query.slots)).bind a.bindings.fill := by
    rw [compiled, compileCall_fst, queries]
    change (((QueryCache.after h).answer a.call).1.bind _).map _ = _
    cases ((QueryCache.after h).answer a.call).1 with
    | error e => rfl
    | ok stored =>
        show ((a.bindings.resolve stored.query.slots).map _).map _ = Except.map _ _
        cases a.bindings.resolve stored.query.slots <;> rfl
  rw [filled, CompilerHistory.answer_fresh context apart, Ask.fresh]

end Compiled

variable [∀ k, Record (T k)]

variable (T) in
/-- What calls have compiled, in order. -/
def compiles (calls : List (SessionCall κ)) : List CompileCall :=
  calls.filterMap fun call => (call.ask? T).map Ask.call

theorem compiles_append (calls calls' : List (SessionCall κ)) :
    compiles T (calls ++ calls') = compiles T calls ++ compiles T calls' := List.filterMap_append ..

theorem compiles_singleton {call : SessionCall κ} {a : Ask} (h : call.ask? T = some a) :
    compiles T [call] = [a.call] := by
  simp [compiles, h]

variable (T) in
theorem subset_compiles_append (known : List CompileCall) (calls calls' : List (SessionCall κ)) :
    known ++ compiles T calls ⊆ known ++ compiles T (calls ++ calls') := by
  rw [compiles_append, ← List.append_assoc]
  exact List.subset_append_left ..

variable [DecidableEq κ]

/-! ### The calls that are served -/

section Served

variable (c : Connection σ η) (s : Session T σ η)

/-- Whether a call was answered, or its rows were got and then could not be scanned. -/
def served : SessionCall κ → Bool
  | .execute ctx n b => (s.execute c ctx n b).1.isOk
  | .fetchRows ctx n b => (s.fetchRows c ctx n b).1.isOk
  | .fetchAll k ctx n b =>
    (s.fetchAll c k ctx n b).1.isOk ||
      (s.run c c.query ctx (some (Record.destination (T k))) n b).1.isOk
  | .close _ => false

/-- The calls that are served, in order. -/
def servedCalls (s : Session T σ η) : List (SessionCall κ) → List (SessionCall κ)
  | [] => []
  | call :: rest =>
    if s.served c call then call :: servedCalls (s.perform c call).2 rest
    else servedCalls (s.perform c call).2 rest

theorem servedCalls_concat (s : Session T σ η) (calls : List (SessionCall κ))
    (call : SessionCall κ) :
    s.servedCalls c (calls ++ [call]) =
      s.servedCalls c calls ++ if (s.after c calls).served c call then [call] else [] := by
  induction calls generalizing s with
  | nil => rfl
  | cons first rest ih =>
      have later : s.after c (first :: rest) = (s.perform c first).2.after c rest := rfl
      simp only [List.cons_append, servedCalls, ih, later]
      split
      · exact (List.cons_append ..).symm
      · rfl

variable {c s} in
/-- The calls that are served are those whose ask is answered. -/
theorem served_of_ask {call : SessionCall κ} {a : Ask} (h : call.ask? T = some a) :
    s.served c call = (s.runAsk c a).1.isOk := by
  cases call with
  | execute | fetchRows => cases h; rfl
  | fetchAll k ctx n b =>
      cases h
      simp only [served, runAsk, Mode.run]
      cases e : (s.run c c.query ctx (some (Record.destination (T k))) n b).1 with
      | error e' => rw [fetchAll_of_error e]; rfl
      | ok rows => exact Bool.or_true _
  | close => cases h

theorem served_unwatched (s : Session T (Watched σ η) (Issued η)) (call : SessionCall κ) :
    s.unwatched.served c call = s.served c.watched call := by
  cases h : call.ask? T with
  | none =>
      obtain ⟨order, rfl⟩ := SessionCall.eq_close_of_ask h
      rfl
  | some a =>
      rw [served_of_ask h, served_of_ask h, runAsk, run_unwatched]
      rfl

end Served

/-! ### One call -/

variable (T) in
/-- A run with success, of the node of a call in its way, with the text and the values that a fresh
render gives. -/
def RanFresh (call : SessionCall κ) (r : Call (Issued η)) : Prop :=
  ∃ a, call.ask? T = some a ∧ ∃ x args v, a.fresh = .ok (x.sql, args) ∧
    r = a.mode.call x args (.ok v) false

section History

variable {c : Connection σ η} {s : Session T (Watched σ η) (Issued η)}

/-- A call that is served adds one run with success, its own; any other adds none. -/
theorem serves_perform (hs : Accounted s.statements) (call : SessionCall κ)
    (fresh : ∀ a, call.ask? T = some a → ((s.compiled a).map fun p => (p.1.sql, p.2)) = a.fresh) :
    ∃ l, serves (s.perform c.watched call).2.statements.log = serves s.statements.log ++ l ∧
      List.Forall₂ (RanFresh T) (if s.served c.watched call then [call] else []) l := by
  cases h : call.ask? T with
  | none =>
      obtain ⟨order, rfl⟩ := SessionCall.eq_close_of_ask h
      obtain ⟨talk, log, talks⟩ := talk_perform (c := c) hs (.close order)
      have quiet : Quiet talk := talks
      exact ⟨[], by rw [log, serves_append, quiet.serves_eq_nil], .nil⟩
  | some a =>
      have fresh := fresh a h
      rw [(perform_of_ask h).1, served_of_ask h]
      cases e : s.compiled a with
      | error err =>
          rw [(runAsk_of_error e).1, (runAsk_of_error e).2]
          exact ⟨[], (List.append_nil _).symm, .nil⟩
      | ok qa =>
          rw [(runAsk_of_ok e).1, (runAsk_of_ok e).2]
          rw [e] at fresh
          obtain ⟨l, log, answer⟩ :=
            PreparedStatements.serves_runPrepared c qa.1.sql a.mode qa.2 hs
          refine ⟨l, log, ?_⟩
          generalize (s.statements.watchedRun c qa.1.sql a.mode qa.2).1 = answered at answer ⊢
          cases answer with
          | failed => exact .nil
          | answered own v =>
              exact .cons ⟨a, h, _, qa.2, v, own ▸ fresh.symm, rfl⟩ .nil

/-- After a session has shared the queries of earlier steps, its queries are those of a history: of
the earlier steps and of what its calls had compiled. -/
theorem queries_after {earlier : List CompilerStep} (queries : s.caches.queries = .after earlier)
    (calls : List (SessionCall κ)) :
    (s.after c.watched calls).caches.queries =
      .after (earlier ++ (compiles T calls).map .compile) := by
  induction calls using List.reverseRecOn with
  | nil => rw [compiles, List.filterMap_nil, List.map_nil, List.append_nil]; exact queries
  | append_singleton calls call ih =>
      rw [after_concat, compiles_append, List.map_append, ← List.append_assoc]
      cases h : call.ask? T with
      | none =>
          obtain ⟨order, rfl⟩ := SessionCall.eq_close_of_ask h
          exact ih.trans (congrArg QueryCache.after (List.append_nil _).symm)
      | some a =>
          rw [(perform_of_ask h).2, queries_runAsk, ih, compiles_singleton h, List.map_singleton,
            QueryCache.after_concat]
          rfl

end History

/-! ### Any calls -/

section Fresh

variable (c : Connection σ η) {s : Session T (Watched σ η) (Issued η)} {earlier : List CompilerStep}
  {ctx : Context}

/-- After calls in one context, the next one runs what a fresh render gives. -/
theorem compiled_after (queries : s.caches.queries = .after earlier)
    {past : List (SessionCall κ)} {call : SessionCall κ} {a : Ask} (h : call.ask? T = some a)
    (context : ∀ p ∈ CompilerHistory.calls earlier ++ compiles T (past ++ [call]), p.context = ctx)
    (apart : NodesApart (CompilerHistory.calls earlier ++ compiles T (past ++ [call]))) :
    (((s.after c.watched past).compiled a).map fun p => (p.1.sql, p.2)) = a.fresh := by
  have known : CompilerHistory.calls (earlier ++ (compiles T past).map .compile) =
      CompilerHistory.calls earlier ++ compiles T past := by
    simp [CompilerHistory.calls, List.filterMap_append, List.filterMap_map]
  rw [compiles_append, compiles_singleton h, ← List.append_assoc, ← known] at context apart
  refine compiled_fresh (queries_after queries past) (fun p hp => ?_) apart
  rw [context p (List.mem_append_left _ hp),
    context a.call (List.mem_append_right _ (List.mem_singleton_self _))]

/-- The runs that succeeded are those of the calls that were served. -/
theorem serves_after (queries : s.caches.queries = .after earlier) (hs : Accounted s.statements)
    {calls : List (SessionCall κ)}
    (context : ∀ p ∈ CompilerHistory.calls earlier ++ compiles T calls, p.context = ctx)
    (apart : NodesApart (CompilerHistory.calls earlier ++ compiles T calls)) :
    ∃ l, serves (s.after c.watched calls).statements.log = serves s.statements.log ++ l ∧
      List.Forall₂ (RanFresh T) (s.servedCalls c.watched calls) l := by
  induction calls using List.reverseRecOn with
  | nil => exact ⟨[], (List.append_nil _).symm, .nil⟩
  | append_singleton calls call ih =>
      -- what holds of all nodes holds of those compiled before the last call
      have fewer := subset_compiles_append T (CompilerHistory.calls earlier) calls [call]
      obtain ⟨l, log, ran⟩ := ih (fun p hp => context p (fewer hp)) (apart.mono fewer)
      obtain ⟨l', log', ran'⟩ := serves_perform (c := c) (accounted_after hs calls) call
        fun a h => compiled_after c queries h context apart
      refine ⟨l ++ l', ?_, ?_⟩
      · rw [after_concat, log', log, List.append_assoc]
      · rw [servedCalls_concat]
        exact List.rel_append ran ran'

end Fresh

theorem servedCalls_unwatched (c : Connection σ η) (s : Session T (Watched σ η) (Issued η))
    (calls : List (SessionCall κ)) :
    s.unwatched.servedCalls c calls = s.servedCalls c.watched calls := by
  induction calls generalizing s with
  | nil => rfl
  | cons call rest ih => simp only [servedCalls, served_unwatched, perform_unwatched, ih]

/-- **What succeeds is fresh.** For any calls in one context on any connection, where the compiled
queries may be shared with earlier calls in that context and no two nodes share a key: the runs that
succeeded are those of the calls that were served, one for each and in order, with the text and the
values that a fresh render of the call gives. And at each call the query and its values are those of
a fresh render; where they are not to be had, the call says so, nothing is said to the connection,
and the statements stay as they are. -/
theorem serves_are_fresh (c : Connection σ η) (state : σ) (plans : PlanCache T) (ctx : Context)
    (earlier : List CompilerStep) (calls : List (SessionCall κ))
    (context : ∀ p ∈ CompilerHistory.calls earlier ++ compiles T calls, p.context = ctx)
    (apart : NodesApart (CompilerHistory.calls earlier ++ compiles T calls)) :
    let caches : Caches T := ⟨.after earlier, plans⟩
    let start : Session T (Watched σ η) (Issued η) := ⟨caches, ⟨(state, []), .empty⟩⟩
    let s := start.after c.watched calls
    s.unwatched = Session.after c ⟨caches, ⟨state, .empty⟩⟩ calls ∧
    List.Forall₂ (RanFresh T) (Session.servedCalls c ⟨caches, ⟨state, .empty⟩⟩ calls)
      (serves s.statements.log) ∧
    OpenWhenRun s.statements.log ∧
    ∀ past call later a, calls = past ++ call :: later → call.ask? T = some a →
      let s := start.after c.watched past
      (s.compiled a).map (fun p => (p.1.sql, p.2)) = a.fresh ∧
      ∀ e, s.compiled a = .error e →
        (s.perform c.watched call).1 = .error e ∧
          (s.perform c.watched call).2.statements = s.statements := by
  intro caches start s
  have hs : Accounted start.statements := .initial state
  have served : Session.servedCalls c ⟨caches, ⟨state, .empty⟩⟩ calls =
      start.servedCalls c.watched calls := servedCalls_unwatched c start calls
  obtain ⟨l, log, ran⟩ := serves_after (s := start) c rfl hs context apart
  refine ⟨after_unwatched c start calls, ?_, (accounted_after hs calls).open_, ?_⟩
  · rw [served, log]
    exact ran
  · rintro past call later a rfl h s
    refine ⟨?_, fun e he => perform_of_error h he⟩
    have fewer := subset_compiles_append T (CompilerHistory.calls earlier) (past ++ [call]) later
    rw [← List.append_cons] at fewer
    exact compiled_after (s := start) c rfl h (fun p hp => context p (fewer hp)) (apart.mono fewer)

/-- A record that no value fits. -/
structure Sealed where

instance : Record Sealed where
  default := ⟨⟩
  destination := ⟨"Sealed"⟩
  fields := [⟨["id"], fun _ v => .error (.mismatch v.kind "id")⟩]

/-- A connection that numbers its calls. What it is asked to execute first fails, and every failure
is stale. -/
def flaky : Connection Nat Nat where
  prepare _ n := (.ok n, n + 1)
  abandon _ n := n
  execute _ _ n := (if n = 1 then .error (.execution "gone") else .ok 1, n + 1)
  query _ _ n := (.ok [⟨["id"], [.null]⟩], n + 1)
  close _ n := (.error (.connection "gone"), n + 1)
  isStale _ _ := true

/-- One slot for a table's only column. -/
def oneSlotInto (table : String) : Node :=
  .insert ⟨⟨none, table⟩, ["id"], [[.slot (.positional 1)]], []⟩

/-- A statement that is run again, rows that cannot be scanned, a value that is missing, and the
end. -/
def flakyCalls : List (SessionCall Unit) :=
  [.execute {} (oneSlotInto "t") ⟨[.null], .empty⟩,
    .fetchAll () {} (oneSlotInto "u") ⟨[.null], .empty⟩,
    .execute {} (oneSlotInto "t") {},
    .close .asWritten]

theorem nodesApart_flakyCalls : NodesApart (compiles (fun _ => Sealed) flakyCalls) := by
  have apart : (⟨{}, none, oneSlotInto "t"⟩ : CompileCall).key ≠
      (⟨{}, some ⟨"Sealed"⟩, oneSlotInto "u"⟩ : CompileCall).key := by decide +kernel
  have two : ∀ p ∈ compiles (fun _ => Sealed) flakyCalls,
      p = ⟨{}, none, oneSlotInto "t"⟩ ∨ p = ⟨{}, some ⟨"Sealed"⟩, oneSlotInto "u"⟩ := by
    simp [compiles, flakyCalls, SessionCall.ask?, Record.destination]
  intro p hp q hq e
  rcases two p hp with rfl | rfl <;> rcases two q hq with rfl | rfl
  · rfl
  · exact absurd e apart
  · exact absurd e.symm apart
  · rfl

theorem flakyCalls_serves_are_fresh :
    NodesApart (compiles (fun _ => Sealed) flakyCalls) ∧
      (serves (Session.after flaky.watched (⟨{}, ⟨(0, []), .empty⟩⟩ : Session (fun _ => Sealed) _ _)
        flakyCalls).statements.log).length = 2 := by
  have context : ∀ p ∈ compiles (fun _ => Sealed) flakyCalls, p.context = {} := by
    simp [compiles, flakyCalls, SessionCall.ask?]
  obtain ⟨-, ran, -, -⟩ := serves_are_fresh flaky 0 ({} : PlanCache fun _ => Sealed) {} []
    flakyCalls context nodesApart_flakyCalls
  exact ⟨nodesApart_flakyCalls, ran.length_eq.symm.trans (by decide +kernel)⟩

end Session

end PreparedSql
