import Mathlib.Data.Finset.Card
import PreparedSql.Proofs.Writing
import PreparedSql.QueryCache

/-!
# A query cache remembers its history

A compiler shared by any number of callers sees one history of steps: calls that compile a node in
a context, and clears.  What the cache holds after a history is determined by the calls since the
last clear (`sinceClear`).

* `QueryCache.answer_cases`: what one call can do.
* `remembers_after`: every entry is the query that a call of its key rendered in its own context,
  every key that succeeded has an entry, and the counters count repeats and calls.  One step keeps
  this (`Remembers.step`), so a history does.
* `answer_of_mem_succeeded`: so calls of a key that succeeded are answered alike.
* `source_of_answer`: and every query that is answered was rendered by some call since the last
  clear, or is rendered now.
-/

namespace PreparedSql

/-- A node to compile in a context, for a destination if there is one. -/
structure CompileCall where
  context     : Context
  destination : Option Destination := none
  node        : Node

namespace CompileCall

def key (call : CompileCall) : UInt64 :=
  queryKey call.context.dialect call.destination call.node

/-- The query of the call written afresh, without any cache. -/
def fresh (call : CompileCall) : Except Error Query :=
  (call.node.render call.context).map fun r => ⟨r.sql, r.slots, call.destination⟩

end CompileCall

/-- What can happen to a compiler. -/
inductive CompilerStep where
  | compile (call : CompileCall)
  | clear

namespace QueryCache

/-- The answer to a call, and the cache after it. -/
def answer (c : QueryCache) (call : CompileCall) : Except Error StoredQuery × QueryCache :=
  c.compile call.context call.destination call.node

def step (c : QueryCache) : CompilerStep → QueryCache
  | .compile call => (c.answer call).2
  | .clear => c.clear

/-- The cache after a history, from an empty cache on. -/
def after (h : List CompilerStep) : QueryCache := h.foldl step {}

theorem after_concat (h : List CompilerStep) (s : CompilerStep) :
    after (h ++ [s]) = (after h).step s := by
  simp [after]

/-! ### One call -/

theorem lookup_of_some {c : QueryCache} {key : UInt64} {found : StoredQuery}
    (h : c.get? key = some found) : c.lookup key = (some found, { c with hits := c.hits + 1 }) := by
  rw [lookup, h]

theorem lookup_of_none {c : QueryCache} {key : UInt64} (h : c.get? key = none) :
    c.lookup key = (none, { c with misses := c.misses + 1 }) := by
  rw [lookup, h]

/-- **What a call can do.**  Its key is there, and the stored query is the answer; or it is not,
and the answer is the node written afresh, which is stored unless writing failed. -/
theorem answer_cases (c : QueryCache) (call : CompileCall) :
    (∃ found, c.get? call.key = some found ∧
      c.answer call = (.ok found, { c with hits := c.hits + 1 })) ∨
    (c.get? call.key = none ∧ ∃ e, call.fresh = .error e ∧
      c.answer call = (.error e, { c with misses := c.misses + 1 })) ∨
    (c.get? call.key = none ∧ ∃ q, call.fresh = .ok q ∧
      c.answer call = (.ok ⟨c.writes, q⟩,
        { c with
          entries := c.entries.insert call.key ⟨c.writes, q⟩
          misses  := c.misses + 1
          writes  := c.writes + 1 })) := by
  unfold answer compile CompileCall.fresh
  dsimp only
  rw [← CompileCall.key]
  cases hk : c.get? call.key with
  | some found => exact .inl ⟨found, rfl, by rw [lookup_of_some hk]; rfl⟩
  | none =>
      rw [lookup_of_none hk]
      cases call.node.render call.context with
      | error e => exact .inr (.inl ⟨rfl, e, rfl, rfl⟩)
      | ok r => exact .inr (.inr ⟨rfl, _, rfl, rfl⟩)

/-- The stored query of a key is the answer to every call of that key: no schema is asked. -/
theorem answer_of_get?_eq_some {c : QueryCache} {call : CompileCall} {found : StoredQuery}
    (h : c.get? call.key = some found) : (c.answer call).1 = .ok found := by
  rcases c.answer_cases call with ⟨stored, hs, e⟩ | ⟨hn, -⟩ | ⟨hn, -⟩
  · rw [h] at hs; cases hs
    rw [e]
  · rw [h] at hn; cases hn
  · rw [h] at hn; cases hn

/-- A call that fails leaves the entries as they were. -/
theorem entries_of_answer_error {c : QueryCache} {call : CompileCall} {e : Error}
    (h : (c.answer call).1 = .error e) : (c.answer call).2.entries = c.entries := by
  rcases c.answer_cases call with ⟨_, -, e'⟩ | ⟨-, _, -, e'⟩ | ⟨-, _, -, e'⟩
  · rw [e'] at h; cases h
  · rw [e']
  · rw [e'] at h; cases h

end QueryCache

/-! ### Histories -/

namespace CompilerHistory
open QueryCache

/-- The calls of a history in order. -/
def calls (h : List CompilerStep) : List CompileCall :=
  h.filterMap fun
    | .compile call => some call
    | .clear => none

/-- The calls after the last clear. -/
def sinceClear (h : List CompilerStep) : List CompileCall :=
  h.foldl (fun past s => match s with
    | .compile call => past ++ [call]
    | .clear => []) []

/-- The keys that succeeded since the last clear. -/
def succeeded (h : List CompilerStep) : Finset UInt64 :=
  (((sinceClear h).filter fun call => call.fresh.isOk).map CompileCall.key).toFinset

/-- Whether a step after a history is a call whose key had already succeeded since the last
clear. -/
def isRepeat (h : List CompilerStep) : CompilerStep → Bool
  | .compile call => call.key ∈ succeeded h
  | .clear => false

/-- How many calls of a history had a key that had succeeded since the last clear before them. -/
def repeats (h : List CompilerStep) : Nat := h.zipIdx.countP fun p => isRepeat (h.take p.2) p.1

@[simp] theorem calls_compile (h : List CompilerStep) (call : CompileCall) :
    calls (h ++ [.compile call]) = calls h ++ [call] := by
  simp [calls]

@[simp] theorem calls_clear (h : List CompilerStep) : calls (h ++ [.clear]) = calls h := by
  simp [calls]

@[simp] theorem sinceClear_compile (h : List CompilerStep) (call : CompileCall) :
    sinceClear (h ++ [.compile call]) = sinceClear h ++ [call] := by
  simp [sinceClear]

@[simp] theorem sinceClear_clear (h : List CompilerStep) : sinceClear (h ++ [.clear]) = [] := by
  simp [sinceClear]

theorem mem_succeeded {h : List CompilerStep} {key : UInt64} :
    key ∈ succeeded h ↔ ∃ call ∈ sinceClear h, call.key = key ∧ ∃ q, call.fresh = .ok q := by
  simp only [succeeded, List.mem_toFinset, List.mem_map, List.mem_filter]
  constructor
  · rintro ⟨call, ⟨hm, hok⟩, rfl⟩
    cases hq : call.fresh with
    | error e => rw [hq] at hok; cases hok
    | ok q => exact ⟨call, hm, rfl, q, hq⟩
  · rintro ⟨call, hm, rfl, q, hq⟩
    exact ⟨call, ⟨hm, by rw [hq]; rfl⟩, rfl⟩

/-- One step more, and one repeat more if the step is one. -/
theorem repeats_concat (h : List CompilerStep) (s : CompilerStep) :
    repeats (h ++ [s]) = repeats h + if isRepeat h s then 1 else 0 := by
  have before : h.zipIdx.countP (fun p => isRepeat ((h ++ [s]).take p.2) p.1) = repeats h := by
    refine List.countP_congr fun p hp => ?_
    have : p.2 < h.length := by simpa using List.snd_lt_of_mem_zipIdx hp
    rw [List.take_append_of_le_length (by omega)]
  rw [repeats, List.zipIdx_append, List.countP_append, before]
  simp [List.countP_cons]

theorem mem_succeeded_compile {h : List CompilerStep} {call : CompileCall} {key : UInt64} :
    key ∈ succeeded (h ++ [.compile call]) ↔
      key ∈ succeeded h ∨ (call.key = key ∧ ∃ q, call.fresh = .ok q) := by
  simp only [mem_succeeded, sinceClear_compile, List.mem_append, List.mem_singleton, or_and_right,
    exists_or, exists_eq_left]

@[simp] theorem succeeded_clear (h : List CompilerStep) : succeeded (h ++ [.clear]) = ∅ := by
  simp [succeeded]

theorem mem_calls_of_mem_sinceClear {h : List CompilerStep} {call : CompileCall}
    (hm : call ∈ sinceClear h) : call ∈ calls h := by
  induction h using List.reverseRecOn with
  | nil => cases hm
  | append_singleton h s ih =>
      cases s with
      | clear => simp at hm
      | compile call' =>
          rw [sinceClear_compile, List.mem_append] at hm
          rw [calls_compile, List.mem_append]
          exact hm.imp_left ih

/-! ### What a history leaves in the cache -/

/-- What a cache has to do with the history before it:
* an entry is the query that a call since the last clear, of the same key, rendered afresh;
* every key that succeeded since the last clear has an entry;
* the hits are the repeats, and every call was counted once. -/
structure Remembers (h : List CompilerStep) (c : QueryCache) : Prop where
  source : ∀ key stored, c.get? key = some stored →
    ∃ call ∈ sinceClear h, call.key = key ∧ call.fresh = .ok stored.query
  kept   : ∀ key ∈ succeeded h, c.get? key ≠ none
  hits   : c.hits = repeats h
  calls  : c.hits + c.misses = (calls h).length

namespace Remembers

variable {h : List CompilerStep} {c : QueryCache}

/-- The keys with an entry are the keys that succeeded. -/
theorem get?_ne_none_iff (hc : Remembers h c) (key : UInt64) :
    c.get? key ≠ none ↔ key ∈ succeeded h := by
  refine ⟨fun hk => ?_, hc.kept key⟩
  obtain ⟨stored, hs⟩ := Option.ne_none_iff_exists'.1 hk
  obtain ⟨call, hm, hkey, hq⟩ := hc.source key stored hs
  exact mem_succeeded.2 ⟨call, hm, hkey, _, hq⟩

theorem not_mem_succeeded (hc : Remembers h c) {key : UInt64} (hk : c.get? key = none) :
    key ∉ succeeded h :=
  fun hm => (hc.get?_ne_none_iff key).2 hm hk

/-- A hit changes nothing but the counter. -/
theorem hit (hc : Remembers h c) {call : CompileCall} {found : StoredQuery}
    (hf : c.get? call.key = some found) :
    Remembers (h ++ [.compile call]) { c with hits := c.hits + 1 } where
  source key stored hs := by
    obtain ⟨call', hm, hr⟩ := hc.source key stored hs
    exact ⟨call', by simp [hm], hr⟩
  kept key hm := by
    rcases mem_succeeded_compile.1 hm with hm | ⟨rfl, -⟩
    · exact hc.kept key hm
    · show c.get? call.key ≠ none
      simp [hf]
  hits := by
    have hk : call.key ∈ succeeded h := (hc.get?_ne_none_iff _).1 (by simp [hf])
    simp [repeats_concat, isRepeat, hk, hc.hits]
  calls := by
    have e := hc.calls
    simp only [calls_compile, List.length_append, List.length_singleton]
    omega

/-- A miss that cannot be rendered is counted and leaves nothing behind. -/
theorem miss_error (hc : Remembers h c) {call : CompileCall} {e : Error}
    (hn : c.get? call.key = none) (he : call.fresh = .error e) :
    Remembers (h ++ [.compile call]) { c with misses := c.misses + 1 } where
  source key stored hs := by
    obtain ⟨call', hm, hr⟩ := hc.source key stored hs
    exact ⟨call', by simp [hm], hr⟩
  kept key hm := by
    rcases mem_succeeded_compile.1 hm with hm | ⟨-, q, hq⟩
    · exact hc.kept key hm
    · rw [he] at hq
      cases hq
  hits := by simp [repeats_concat, isRepeat, hc.not_mem_succeeded hn, hc.hits]
  calls := by
    have e := hc.calls
    simp only [calls_compile, List.length_append, List.length_singleton]
    omega

/-- A miss that is rendered is counted and leaves its query as the entry of its key. -/
theorem miss_ok (hc : Remembers h c) {call : CompileCall} {q : Query} (serial : Nat)
    (hn : c.get? call.key = none) (hq : call.fresh = .ok q) :
    Remembers (h ++ [.compile call])
      { c with
        entries := c.entries.insert call.key ⟨serial, q⟩
        misses  := c.misses + 1
        writes  := c.writes + 1 } where
  source key stored hs := by
    simp only [get?, Store.get?_insert] at hs
    split at hs
    · next e =>
        cases hs
        exact ⟨call, by simp, e.symm, hq⟩
    · obtain ⟨call', hm, hr⟩ := hc.source key stored hs
      exact ⟨call', by simp [hm], hr⟩
  kept key hm := by
    simp only [get?, Store.get?_insert]
    split
    · simp
    · next ne =>
        rcases mem_succeeded_compile.1 hm with hm | ⟨e, -⟩
        · exact hc.kept key hm
        · exact absurd e.symm ne
  hits := by simp [repeats_concat, isRepeat, hc.not_mem_succeeded hn, hc.hits]
  calls := by
    have e := hc.calls
    simp only [calls_compile, List.length_append, List.length_singleton]
    omega

/-- **One step keeps the bond.** -/
theorem step (hc : Remembers h c) (s : CompilerStep) : Remembers (h ++ [s]) (c.step s) := by
  cases s with
  | clear =>
      refine ⟨fun key stored hs => ?_, fun key hm => by simp at hm, ?_, ?_⟩
      · cases hs
      · simpa [repeats_concat, isRepeat, QueryCache.step, QueryCache.clear] using hc.hits
      · simpa [QueryCache.step, QueryCache.clear] using hc.calls
  | compile call =>
      simp only [QueryCache.step]
      rcases c.answer_cases call with ⟨found, hf, e⟩ | ⟨hn, err, he, e⟩ | ⟨hn, q, hq, e⟩ <;> rw [e]
      · exact hc.hit hf
      · exact hc.miss_error hn he
      · exact hc.miss_ok _ hn hq

end Remembers

/-- **The cache after any history** remembers it. -/
theorem remembers_after (h : List CompilerStep) : Remembers h (after h) := by
  induction h using List.reverseRecOn with
  | nil => exact ⟨fun _ _ hs => (by cases hs), fun _ hm => (by cases hm), rfl, rfl⟩
  | append_singleton h s ih =>
      rw [after_concat]
      exact ih.step s

/-- There is one entry for each key that succeeded since the last clear. -/
theorem size_after (h : List CompilerStep) : (after h).size = (succeeded h).card := by
  have e : (after h).entries.keys.toFinset = succeeded h := by
    ext key
    rw [List.mem_toFinset, ← Store.isSome_get?, ← (remembers_after h).get?_ne_none_iff key,
      Option.isSome_iff_ne_none]
    rfl
  have nodup : (after h).entries.keys.Nodup := (after h).entries.nodup
  rw [size, Store.size_eq_length_keys, ← e, List.toFinset_card_of_nodup nodup]

/-- Where a key had succeeded, calls of that key are answered alike, whatever their contexts. -/
theorem answer_of_mem_succeeded {h : List CompilerStep} {call other : CompileCall}
    {stored : StoredQuery} (hk : call.key ∈ succeeded h) (same : other.key = call.key)
    (ha : ((after h).answer call).1 = .ok stored) : ((after h).answer other).1 = .ok stored := by
  obtain ⟨found, hf⟩ := Option.ne_none_iff_exists'.1 ((remembers_after h).kept _ hk)
  obtain rfl : found = stored := Except.ok.inj ((answer_of_get?_eq_some hf).symm.trans ha)
  rw [← same] at hf
  exact answer_of_get?_eq_some hf

/-- **Where an answer comes from.**  A call that is answered with a query gets what some call
since the last clear, or the call itself, rendered afresh under the same key; the call itself where
its key had not succeeded. -/
theorem source_of_answer {h : List CompilerStep} {call : CompileCall} {stored : StoredQuery}
    (ha : ((after h).answer call).1 = .ok stored) :
    ∃ source ∈ sinceClear h ++ [call], source.key = call.key ∧
      source.fresh = .ok stored.query ∧ (call.key ∉ succeeded h → source = call) := by
  have hh := remembers_after h
  rcases (after h).answer_cases call with ⟨found, hf, e⟩ | ⟨-, _, -, e⟩ | ⟨-, q, hq, e⟩ <;>
    rw [e] at ha <;> cases ha
  · obtain ⟨source, hm, hkey, hfresh⟩ := hh.source _ _ hf
    refine ⟨source, by simp [hm], hkey, hfresh, fun hn => absurd ?_ hn⟩
    exact (hh.get?_ne_none_iff _).1 (by simp [hf])
  · exact ⟨call, by simp, rfl, hq, fun _ => rfl⟩

end CompilerHistory

end PreparedSql
