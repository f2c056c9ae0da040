import PreparedSql.Proofs.CompilerHistory
import PreparedSql.Proofs.Faults

/-!
# A compiler shared by many callers

* `answers_as_fresh`: among callers with one schema, and where only equal calls share a key, a
  call gets what it would get without the cache, and the counters count repeats and calls.
* `answer_checked`: in general the schema that a statement was checked against is the schema of
  the call that rendered it.  It need not be the schema of the call that gets it
  (`not_everyCallChecked`): a schema is not part of a key.
-/

namespace PreparedSql.CompilerHistory
open QueryCache

/-! ### Callers with one schema -/

/-- Only equal calls share a key. -/
def KeysApart (h : List CompilerStep) : Prop :=
  ∀ a ∈ calls h, ∀ b ∈ calls h, a.key = b.key →
    a.context.dialect = b.context.dialect ∧ a.destination = b.destination ∧ a.node = b.node

/-- The contexts of all calls have this schema. -/
def OneSchema (schema : Schema) (h : List CompilerStep) : Prop :=
  ∀ call ∈ calls h, call.context.schema = schema

theorem mem_calls_of_eq {h past rest : List CompilerStep} {call : CompileCall}
    (e : h = past ++ .compile call :: rest) : call ∈ calls h := by
  simp [e, calls]

theorem mem_calls_of_mem_past {h past rest : List CompilerStep} {call source : CompileCall}
    (e : h = past ++ .compile call :: rest) (hm : source ∈ sinceClear past) : source ∈ calls h := by
  have := mem_calls_of_mem_sinceClear hm
  simp only [e, calls, List.filterMap_append, List.mem_append]
  exact .inl this

/-- A call is its own source, up to what a key and the schema say of it. -/
theorem answer_eq_fresh {schema : Schema} {h past rest : List CompilerStep} {call : CompileCall}
    (one : OneSchema schema h) (apart : KeysApart h) (e : h = past ++ .compile call :: rest) :
    ((after past).answer call).1.map StoredQuery.query = call.fresh := by
  rcases (after past).answer_cases call with ⟨found, hf, ha⟩ | ⟨-, err, he, ha⟩ | ⟨-, q, hq, ha⟩
  · rw [ha]
    obtain ⟨source, hm, hkey, hfresh⟩ := (remembers_after past).source _ _ hf
    have ms := mem_calls_of_mem_past e hm
    have mc := mem_calls_of_eq e
    obtain ⟨hd, ht, hn⟩ := apart source ms call mc hkey
    have hs : source.context.schema = call.context.schema := (one _ ms).trans (one _ mc).symm
    have same : source = call := by
      obtain ⟨⟨d, σ⟩, t, n⟩ := source
      obtain ⟨⟨d', σ'⟩, t', n'⟩ := call
      cases hd; cases ht; cases hn; cases hs
      rfl
    rw [← same, hfresh]
    rfl
  · rw [ha, he]
    rfl
  · rw [ha, hq]
    rfl

/-- One column and one row with one slot. -/
def oneSlot : Insert := ⟨⟨none, "t"⟩, ["id"], [[.slot (.positional 1)]], []⟩

def plainCall : CompileCall := ⟨{}, none, .insert oneSlot⟩
def typedCall : CompileCall := ⟨{}, some ⟨"user"⟩, .insert oneSlot⟩

/-- A RETURNING list where there is none. -/
def refusedCall : CompileCall :=
  ⟨{ dialect := .mysql }, none, .insert { oneSlot with returning := ["id"] }⟩

/-- Misses of both kinds, a hit, a failure repeated, and a clear. -/
def mixedHistory : List CompilerStep :=
  [.compile plainCall, .compile refusedCall, .compile typedCall, .compile plainCall,
    .compile refusedCall, .clear, .compile plainCall]

theorem keysApart_mixedHistory : KeysApart mixedHistory := by
  have cases3 : ∀ a ∈ calls mixedHistory, a = plainCall ∨ a = typedCall ∨ a = refusedCall := by
    simp [calls, mixedHistory]
  have h₁ : plainCall.key ≠ typedCall.key := by decide +kernel
  have h₂ : plainCall.key ≠ refusedCall.key := by decide +kernel
  have h₃ : typedCall.key ≠ refusedCall.key := by decide +kernel
  intro a ha b hb e
  rcases cases3 a ha with rfl | rfl | rfl <;> rcases cases3 b hb with rfl | rfl | rfl
  · exact ⟨rfl, rfl, rfl⟩
  · exact absurd e h₁
  · exact absurd e h₂
  · exact absurd e.symm h₁
  · exact ⟨rfl, rfl, rfl⟩
  · exact absurd e h₃
  · exact absurd e.symm h₂
  · exact absurd e.symm h₃
  · exact ⟨rfl, rfl, rfl⟩

/-- **Among callers with one schema the cache cannot be seen**, as long as only equal calls share
a key.  Every call gets what it would get without the cache; a call that fails leaves the entries
as they were; there is one entry for each key that succeeded since the last clear, one hit for
each call whose key had succeeded since the last clear before it, and every call is a hit or a
miss. -/
theorem answers_as_fresh (schema : Schema) (h : List CompilerStep) (one : OneSchema schema h)
    (apart : KeysApart h) :
    (∀ past call rest, h = past ++ .compile call :: rest →
      ((after past).answer call).1.map StoredQuery.query = call.fresh ∧
      ∀ e, ((after past).answer call).1 = .error e →
        ((after past).answer call).2.entries = (after past).entries) ∧
    (after h).stats.entries = (succeeded h).card ∧
    (after h).stats.hits = repeats h ∧
    (after h).stats.hits + (after h).stats.misses = (calls h).length :=
  ⟨fun _ _ _ e => ⟨answer_eq_fresh one apart e, fun _ => entries_of_answer_error⟩,
    size_after h, (remembers_after h).hits, (remembers_after h).calls⟩

theorem mixedHistory_answers_as_fresh :
    OneSchema {} mixedHistory ∧ KeysApart mixedHistory ∧
      (after mixedHistory).stats.entries = 1 ∧ (after mixedHistory).stats.hits = 1 ∧
      (after mixedHistory).stats.hits + (after mixedHistory).stats.misses = 6 := by
  have one : OneSchema {} mixedHistory := by
    simp [OneSchema, calls, mixedHistory, plainCall, typedCall, refusedCall]
  obtain ⟨-, entries, hits, total⟩ :=
    answers_as_fresh {} mixedHistory one keysApart_mixedHistory
  exact ⟨one, keysApart_mixedHistory, entries.trans (by decide +kernel),
    hits.trans (by decide +kernel), total⟩

end PreparedSql.CompilerHistory

namespace PreparedSql

/-! ### Callers with schemas of their own -/

/-- A statement that is rendered is listed in the schema it is rendered in. -/
theorem CompileCall.listedIn_of_fresh {call : CompileCall} {q : Query} {s : Insert}
    (h : call.fresh = .ok q) (hn : call.node = .insert s) : s.ListedIn call.context := by
  unfold fresh at h
  cases hr : call.node.render call.context with
  | error e => rw [hr] at h; cases h
  | ok r =>
      rw [hn] at hr
      exact (Insert.fault?_eq_none_iff.1 (Node.render_insert_eq_ok_iff.1 hr).1).2.1

namespace CompilerHistory
open QueryCache

/-- The statement of `plainCall` where the table is known to have another column only. -/
def strictCall : CompileCall :=
  ⟨{ schema := .ofList [("t", ["name"])] }, none, .insert oneSlot⟩

/-- A call gets what an earlier one of its key rendered, whatever its own context. -/
theorem answer_of_earlier {earlier call : CompileCall} {q : Query} (hq : earlier.fresh = .ok q)
    (hkey : call.key = earlier.key) :
    ((after [.compile earlier]).answer call).1 = .ok ⟨0, q⟩ := by
  have entry : (after [.compile earlier]).get? call.key = some ⟨0, q⟩ := by
    show (({} : QueryCache).answer earlier).2.get? call.key = _
    rcases ({} : QueryCache).answer_cases earlier with ⟨_, hf, -⟩ | ⟨-, _, he, -⟩ | ⟨-, q', hq', e⟩
    · cases hf
    · rw [hq] at he; cases he
    · rw [hq] at hq'; cases hq'
      rw [e]
      simp [get?, Store.get?_insert, hkey]
  exact answer_of_get?_eq_some entry

/-- The query of `oneSlot` in Postgres. -/
def oneSlotQuery : Query := ⟨"INSERT INTO \"t\" (\"id\") VALUES ($1)", [.positional 1], none⟩

theorem fresh_plainCall : plainCall.fresh = .ok oneSlotQuery := rfl

/-- `strictCall` differs from `plainCall` in its schema only, and the two share a key. -/
theorem answer_strictCall :
    ((after [.compile plainCall]).answer strictCall).1 = .ok ⟨0, oneSlotQuery⟩ :=
  answer_of_earlier fresh_plainCall rfl

/-- **The schema a statement was checked against** is that of the call that rendered it.  A
statement that is answered with a query gets what some call since the last clear, or the call
itself, rendered under the same key; that call's statement is listed in that call's schema.  The
call is its own source where its key had not succeeded, and listed in its own schema where its
source is the same statement and knows the same columns for the table.  Where its key had succeeded,
the schema of its context is not asked: all calls of the key are answered alike. -/
theorem answer_checked (h : List CompilerStep) (call : CompileCall) (s : Insert)
    (stored : StoredQuery) (hn : call.node = .insert s)
    (ha : ((after h).answer call).1 = .ok stored) :
    (∃ source ∈ sinceClear h ++ [call],
      source.key = call.key ∧ source.fresh = .ok stored.query ∧
      (call.key ∉ succeeded h → source = call) ∧
      (∀ s', source.node = .insert s' → s'.ListedIn source.context) ∧
      (source.node = call.node →
        source.context.schema.columns? s.table = call.context.schema.columns? s.table →
        s.ListedIn call.context)) ∧
    (call.key ∈ succeeded h → ∀ other : CompileCall, other.key = call.key →
      ((after h).answer other).1 = .ok stored) := by
  refine ⟨?_, fun hk other same => answer_of_mem_succeeded hk same ha⟩
  obtain ⟨source, hm, hkey, hfresh, hself⟩ := source_of_answer ha
  refine ⟨source, hm, hkey, hfresh, hself, fun s' hs => source.listedIn_of_fresh hfresh hs,
    fun hnode hcols known hk => ?_⟩
  exact source.listedIn_of_fresh hfresh (hnode.trans hn) known (hcols.trans hk)

theorem strictCall_answer_checked :
    ((after [.compile plainCall]).answer strictCall).1 = .ok ⟨0, oneSlotQuery⟩ ∧
      ((after [.compile plainCall]).answer plainCall).1 = .ok ⟨0, oneSlotQuery⟩ ∧
      ∃ source ∈ [plainCall, strictCall],
        source.key = strictCall.key ∧ source.fresh = .ok oneSlotQuery ∧
        oneSlot.ListedIn source.context := by
  obtain ⟨⟨source, hm, hkey, hfresh, -, hlisted, -⟩, alike⟩ :=
    answer_checked [.compile plainCall] strictCall oneSlot ⟨0, oneSlotQuery⟩ rfl answer_strictCall
  have hit : strictCall.key ∈ succeeded [.compile plainCall] :=
    mem_succeeded.2 ⟨plainCall, List.mem_singleton_self _, rfl, _, fresh_plainCall⟩
  have hm' : source = plainCall ∨ source = strictCall := by simpa [sinceClear] using hm
  refine ⟨answer_strictCall, alike hit plainCall rfl, source, by simpa using hm', hkey, hfresh, ?_⟩
  rcases hm' with rfl | rfl
  · exact hlisted oneSlot rfl
  · exact hlisted oneSlot rfl

/-- **Every call is checked against its own schema**: a statement that is answered with a query,
after any calls, is listed in the schema of the call's own context.  It does not hold
(`not_everyCallChecked`). -/
def EveryCallChecked : Prop :=
  ∀ (earlier : List CompileCall) (call : CompileCall) (s : Insert) (stored : StoredQuery),
    call.node = .insert s →
    ((after (earlier.map .compile)).answer call).1 = .ok stored → s.ListedIn call.context

/-- After `plainCall`, `strictCall` is answered; `id` is no column that its schema lists. -/
theorem not_everyCallChecked : ¬ EveryCallChecked := by
  intro h
  have listed := h [plainCall] strictCall oneSlot ⟨0, oneSlotQuery⟩ rfl answer_strictCall
  exact absurd (listed ["name"] rfl "id" (by decide)) (by decide)

end CompilerHistory

end PreparedSql
