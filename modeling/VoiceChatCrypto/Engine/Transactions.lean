import VoiceChatCrypto.Engine.Storage

/-!
# Storage as an atomic map

What `MemoryStorage` is for, said of the calls alone. A log lists the calls of a run with their
answers, and everything a caller may rely on is read off it: the transaction that is open (`opened`),
the ids that were handed out (`ids`), the writes that were accepted and the transactions that were
committed. The atomic map of a log gives to a key the last write that a committed transaction made to
it, in the order of the calls; what was aborted, left unfinished or refused is not there.

The storage follows this map (`run_refines`). What makes the order of the *commits* that of the
*calls* is that only one transaction is open at a time: the writes of the open transaction come after
all writes of committed ones (`Staging.after`).

The addition in `begin` is checked in every build profile, so a storage that has handed out
`2 ^ 64 - 1` ids does not reuse one: the call panics and leaves the storage as it was.
-/

open Alphabet

namespace VoiceChatCrypto

variable {B : Type} [Alphabet B]

namespace MemoryStorage

/-- A call of the storage interface. A commit goes through the staged writes in an order of its own. -/
inductive Call (B : Type)
  | begin
  | put (tx : UInt64) (key value : List B)
  | delete (tx : UInt64) (key : List B)
  | commit (σ : Enumeration) (tx : UInt64)
  | abort (tx : UInt64)
  | get (key : List B)
  | advanceEpoch

/-- What a call answers. -/
inductive Answer (B : Type)
  | started (tx : UInt64)
  | done
  | value (v : Option (List B))
  | epoch (e : UInt64)
  | err (e : PrimitiveError)
  | panic

/-- The answer of a call that returns nothing. -/
def Answer.ofUnit : Except PrimitiveError Unit → Answer B
  | .ok () => .done
  | .error e => .err e

/-- `get`. -/
def get (s : MemoryStorage B) (key : List B) : Option (List B) := s.committed.lookup key

/-- One call. -/
def perform (s : MemoryStorage B) : Call B → Answer B × MemoryStorage B
  | .begin =>
    -- `next_tx += 1` with overflow checks; the open transaction is looked at first
    if s.staged = none ∧ ¬ s.nextTx.toNat + 1 < 2 ^ 64 then (.panic, s)
    else
      match s.begin_ with
      | (.ok tx, s) => (.started tx, s)
      | (.error e, s) => (.err e, s)
  | .put tx key value => ((s.stage tx key (some value)).map .ofUnit id)
  | .delete tx key => ((s.stage tx key none).map .ofUnit id)
  | .commit σ tx => ((s.commit σ tx).map .ofUnit id)
  | .abort tx => ((s.abort tx).map .ofUnit id)
  | .get key => (.value (s.get key), s)
  | .advanceEpoch =>
    match s.advanceEpoch with
    | (.ok e, s) => (.epoch e, s)
    | (.error e, s) => (.err e, s)

/-- The calls of a run and what they answered, in order. -/
abbrev Log (B : Type) := List (Call B × Answer B)

/-- A run of a new storage. -/
def run (calls : List (Call B)) : Log B × MemoryStorage B :=
  calls.foldl (fun r call ↦ (r.1 ++ [(call, (r.2.perform call).1)], (r.2.perform call).2)) ([], empty)

/-! ### The atomic map of a log -/

/-- The id that a call handed out. -/
def startedBy : Call B × Answer B → Option UInt64
  | (.begin, .started tx) => some tx
  | _ => none

/-- The transaction that a call committed. -/
def committedBy : Call B × Answer B → Option UInt64
  | (.commit _ tx, .done) => some tx
  | _ => none

/-- The write that a call was allowed to make: its transaction, its key, and the value if it is a put. -/
def writtenBy : Call B × Answer B → Option (UInt64 × List B × Option (List B))
  | (.put tx key value, .done) => some (tx, key, some value)
  | (.delete tx key, .done) => some (tx, key, none)
  | _ => none

/-- The open transaction after a call. -/
def openAfter (tx : Option UInt64) : Call B × Answer B → Option UInt64
  | (.begin, .started tx) => some tx
  | (.commit _ _, .done) => none
  | (.abort _, .done) => none
  | _ => tx

/-- The transaction a log leaves open. -/
def opened (log : Log B) : Option UInt64 := log.foldl openAfter none

/-- The ids handed out. -/
def ids (log : Log B) : List UInt64 := log.filterMap startedBy

/-- The transactions committed. -/
def commits (log : Log B) : List UInt64 := log.filterMap committedBy

/-- The writes of the transactions that satisfy a predicate, in the order of the calls. -/
def writes (p : UInt64 → Prop) [DecidablePred p] (log : Log B) :
    List (UInt64 × List B × Option (List B)) :=
  (log.filterMap writtenBy).filter fun w ↦ p w.1

/-- The last write of a key: `none` if there is none, `some none` for a deletion. -/
def lastWrite (key : List B) (ws : List (UInt64 × List B × Option (List B))) :
    Option (Option (List B)) :=
  ((ws.filter fun w ↦ w.2.1 = key).map fun w ↦ w.2.2).getLast?

/-- **The atomic map of a log**: what the last write of a committed transaction left under a key. -/
def mapOf (log : Log B) (key : List B) : Option (List B) :=
  (lastWrite key (writes (· ∈ commits log) log)).join

/-- The transaction a call names. -/
def Call.tx? : Call B → Option UInt64
  | .put tx _ _ => some tx
  | .delete tx _ => some tx
  | .commit _ tx => some tx
  | .abort tx => some tx
  | _ => none

section Logs

variable {log : Log B} {e : Call B × Answer B} {p : UInt64 → Prop} [DecidablePred p]

omit [Alphabet B] in
/-- The last call decides which transaction is open. -/
theorem opened_concat : opened (log ++ [e]) = openAfter (opened log) e := by
  rw [opened, List.foldl_append]
  rfl

omit [Alphabet B] in
theorem ids_concat : ids (log ++ [e]) = ids log ++ (startedBy e).toList := by
  rw [ids, List.filterMap_append, ids]
  cases h : startedBy e <;> simp [h]

omit [Alphabet B] in
theorem commits_concat : commits (log ++ [e]) = commits log ++ (committedBy e).toList := by
  rw [commits, List.filterMap_append, commits]
  cases h : committedBy e <;> simp [h]

omit [Alphabet B] in
/-- The writes of some transactions, with one more call. -/
theorem writes_concat :
    writes p (log ++ [e]) = writes p log ++ (writtenBy e).toList.filter fun w ↦ p w.1 := by
  rw [writes, List.filterMap_append, List.filter_append, writes]
  cases h : writtenBy e <;> simp [h]

omit [Alphabet B] in
/-- A call that writes nothing. -/
theorem writes_concat_none (h : writtenBy e = none) : writes p (log ++ [e]) = writes p log := by
  rw [writes_concat, h]
  exact List.append_nil _

theorem lastWrite_append (key : List B) (ws ws' : List (UInt64 × List B × Option (List B))) :
    lastWrite key (ws ++ ws') = (lastWrite key ws').or (lastWrite key ws) := by
  rw [lastWrite, List.filter_append, List.map_append, List.getLast?_append]
  rfl

theorem lastWrite_singleton (key : List B) (w : UInt64 × List B × Option (List B)) :
    lastWrite key [w] = if w.2.1 = key then some w.2.2 else none := by
  rw [lastWrite, List.filter_cons]
  by_cases h : w.2.1 = key <;> simp [h]

end Logs

/-! ### The invariant -/

/-- The open transaction: its staged writes are its writes of the log, and these come after the writes
of all committed transactions. -/
structure Staging (log : Log B) (tx : UInt64) (w : Dict (List B) (Option (List B))) : Prop where
  /-- The transaction was started. -/
  mem_ids : tx ∈ ids log
  /-- It has not been committed. -/
  not_committed : tx ∉ commits log
  /-- What is staged for a key is the transaction's last write to it. -/
  lookup_eq : ∀ key, w.lookup key = lastWrite key (writes (· = tx) log)
  /-- Committed now, its writes come last. -/
  after : writes (· ∈ commits log ++ [tx]) log = writes (· ∈ commits log) log ++ writes (· = tx) log

/-- The ids of a log: handed out below a counter, each once, and the only ones that write or commit. -/
structure Accounted (log : Log B) (nextTx : UInt64) : Prop where
  /-- The counter has counted the ids. -/
  nextTx_eq : nextTx.toNat = (ids log).length
  /-- What was handed out is behind the counter. -/
  ids_lt : ∀ tx ∈ ids log, tx.toNat < nextTx.toNat
  /-- No id was handed out twice. -/
  ids_nodup : (ids log).Nodup
  /-- A write that was accepted named an id that had been handed out. -/
  writes_ids : ∀ w ∈ log.filterMap writtenBy, w.1 ∈ ids log
  /-- A transaction that was committed had been started. -/
  commits_ids : ∀ tx ∈ commits log, tx ∈ ids log

/-- **The storage follows the log.** The log alone says which transaction is open and what was
committed; the storage's own fields are compared with it. -/
structure Follows (log : Log B) (s : MemoryStorage B) : Prop where
  /-- The storage knows which transaction is open. -/
  opened_eq : s.staged.map Prod.fst = opened log
  /-- Each key holds what the committed transactions have written last. -/
  get_eq : ∀ key, s.get key = mapOf log key
  /-- What is staged are the writes of the open transaction. -/
  staging : ∀ tx w, s.staged = some (tx, w) → Staging log tx w
  /-- The counter is ahead of the ids of the log. -/
  accounted : Accounted log s.nextTx

variable {log : Log B} {s : MemoryStorage B} {e : Call B × Answer B}

theorem follows_empty : Follows ([] : Log B) empty := by
  refine ⟨rfl, fun _ ↦ rfl, ?_, ⟨rfl, ?_, List.nodup_nil, ?_, ?_⟩⟩
  · intro tx w h
    cases h
  all_goals
    intro x h
    cases h

omit [Alphabet B] in
/-- A call that starts nothing leaves the ids alone. -/
theorem ids_concat_none (log : Log B) (h : startedBy e = none) : ids (log ++ [e]) = ids log := by
  rw [ids_concat, h]
  exact List.append_nil _

omit [Alphabet B] in
/-- A call that commits nothing leaves the commits alone. -/
theorem commits_concat_none (log : Log B) (h : committedBy e = none) :
    commits (log ++ [e]) = commits log := by
  rw [commits_concat, h]
  exact List.append_nil _

omit [Alphabet B] in
/-- A call that hands out no id, made under ids of the log. -/
theorem Accounted.concat {nextTx : UInt64} (h : Accounted log nextTx) (hstarted : startedBy e = none)
    (hwritten : ∀ w, writtenBy e = some w → w.1 ∈ ids log)
    (hcommitted : ∀ tx, committedBy e = some tx → tx ∈ ids log) :
    Accounted (log ++ [e]) nextTx := by
  have hids := ids_concat_none log hstarted
  refine ⟨hids ▸ h.nextTx_eq, hids ▸ h.ids_lt, hids ▸ h.ids_nodup, ?_, ?_⟩
  · intro w hw
    rw [hids]
    rcases List.mem_filterMap.1 hw with ⟨e', he', hw'⟩
    rcases List.mem_append.1 he' with he' | he'
    · exact h.writes_ids w (List.mem_filterMap.2 ⟨e', he', hw'⟩)
    · exact hwritten w (List.mem_singleton.1 he' ▸ hw')
  · intro tx htx
    rw [hids]
    rcases List.mem_filterMap.1 htx with ⟨e', he', htx'⟩
    rcases List.mem_append.1 he' with he' | he'
    · exact h.commits_ids tx (List.mem_filterMap.2 ⟨e', he', htx'⟩)
    · exact hcommitted tx (List.mem_singleton.1 he' ▸ htx')

omit [Alphabet B] in
/-- The next id is handed out. -/
theorem Accounted.started {nextTx : UInt64} (h : Accounted log nextTx)
    (hnext : nextTx.toNat + 1 < 2 ^ 64) :
    Accounted (log ++ [(.begin, .started nextTx)]) (nextTx + 1) := by
  have hsucc : (nextTx + 1).toNat = nextTx.toNat + 1 := by
    rw [UInt64.toNat_add, UInt64.toNat_one, Nat.mod_eq_of_lt hnext]
  have hids : ids (log ++ [(.begin, .started nextTx)]) = ids log ++ [nextTx] := ids_concat
  constructor
  · rw [hids, hsucc, List.length_append, List.length_singleton, h.nextTx_eq]
  · rw [hids]
    intro tx htx
    rcases List.mem_append.1 htx with htx | htx
    · have := h.ids_lt tx htx
      omega
    · rw [List.mem_singleton.1 htx]
      omega
  · rw [hids]
    refine List.nodup_append.2 ⟨h.ids_nodup, List.nodup_singleton _, ?_⟩
    rintro a ha b hb rfl
    rw [List.mem_singleton.1 hb] at ha
    exact lt_irrefl _ (h.ids_lt _ ha)
  · intro w hw
    rw [List.filterMap_append] at hw
    rw [hids]
    rcases List.mem_append.1 hw with hw | hw
    · exact List.mem_append_left _ (h.writes_ids w hw)
    · cases hw
  · rw [hids, commits_concat_none _ rfl]
    exact fun tx htx ↦ List.mem_append_left _ (h.commits_ids tx htx)

/-- The epoch is not part of the map. -/
theorem Follows.congr {s' : MemoryStorage B} (h : Follows log s)
    (hcommitted : s'.committed = s.committed) (hstaged : s'.staged = s.staged)
    (hnext : s'.nextTx = s.nextTx) : Follows log s' where
  opened_eq := by rw [hstaged, h.opened_eq]
  get_eq key := by rw [get, hcommitted, ← h.get_eq, get]
  staging tx w hw := h.staging tx w (hstaged ▸ hw)
  accounted := hnext ▸ h.accounted

/-- A call that hands out no id, writes nothing and opens, commits or aborts nothing. -/
structure Quiet (e : Call B × Answer B) : Prop where
  /-- It starts nothing. -/
  started : startedBy e = none
  /-- It commits nothing. -/
  committed : committedBy e = none
  /-- It writes nothing. -/
  written : writtenBy e = none
  /-- It leaves open what was open. -/
  openAfter_eq : ∀ tx, openAfter tx e = tx

/-- **A quiet call changes nothing.** -/
theorem Follows.quiet (h : Follows log s) (he : Quiet e) : Follows (log ++ [e]) s := by
  have hids := ids_concat_none log he.started
  have hcommits := commits_concat_none log he.committed
  refine ⟨?_, ?_, ?_, h.accounted.concat he.started ?_ ?_⟩
  · rw [opened_concat, he.openAfter_eq, h.opened_eq]
  · intro key
    rw [h.get_eq, mapOf, mapOf, writes_concat_none he.written, hcommits]
  · intro tx w hw
    obtain ⟨hmem, hnot, hlookup, hafter⟩ := h.staging tx w hw
    refine ⟨hids ▸ hmem, hcommits ▸ hnot, ?_, ?_⟩
    · intro key
      rw [writes_concat_none he.written, hlookup]
    · rw [writes_concat_none he.written, writes_concat_none he.written,
        writes_concat_none he.written, hcommits, hafter]
  · intro w hw
    rw [he.written] at hw
    cases hw
  · intro tx htx
    rw [he.committed] at htx
    cases htx

/-! ### The calls that change something -/

/-- A new transaction has an id that was never handed out, and no writes. -/
theorem Follows.begin_ (h : Follows log s) (hnext : s.nextTx.toNat + 1 < 2 ^ 64) :
    Follows (log ++ [(.begin, .started s.nextTx)])
      { s with nextTx := s.nextTx + 1, staged := some (s.nextTx, ∅) } := by
  have hfresh : s.nextTx ∉ ids log := fun hmem ↦ lt_irrefl _ (h.accounted.ids_lt _ hmem)
  have hids : ids (log ++ [(.begin, .started s.nextTx)]) = ids log ++ [s.nextTx] := ids_concat
  have hcommits : commits (log ++ [(.begin, .started s.nextTx)]) = commits log :=
    commits_concat_none _ rfl
  have hnone : writes (· = s.nextTx) log = [] := by
    refine List.filter_eq_nil_iff.2 fun w hw htx ↦ hfresh ?_
    rw [← of_decide_eq_true htx]
    exact h.accounted.writes_ids w hw
  refine ⟨?_, ?_, ?_, h.accounted.started hnext⟩
  · rw [opened_concat]
    rfl
  · intro key
    rw [mapOf, hcommits, writes_concat_none rfl]
    exact h.get_eq key
  · intro tx w hw
    cases hw
    refine ⟨?_, ?_, ?_, ?_⟩
    · rw [hids]
      exact List.mem_append_right _ (List.mem_singleton.2 rfl)
    · rw [hcommits]
      exact fun hmem ↦ hfresh (h.accounted.commits_ids _ hmem)
    · intro key
      rw [writes_concat_none rfl, hnone]
      exact Finmap.lookup_empty key
    · rw [writes_concat_none rfl, writes_concat_none rfl, writes_concat_none rfl, hcommits, hnone,
        List.append_nil]
      refine List.filter_congr fun w hw ↦ decide_eq_decide.2 ?_
      show w.1 ∈ commits log ++ [s.nextTx] ↔ w.1 ∈ commits log
      rw [List.mem_append, List.mem_singleton]
      refine or_iff_left fun hw' ↦ hfresh ?_
      exact hw' ▸ h.accounted.writes_ids w hw

/-- A write of the open transaction. -/
theorem Follows.stage (h : Follows log s) {tx : UInt64} {w : Dict (List B) (Option (List B))}
    (hopen : s.staged = some (tx, w)) {key : List B} {v : Option (List B)}
    (hwritten : writtenBy e = some (tx, key, v)) (hstarted : startedBy e = none)
    (hcommitted : committedBy e = none) (hafter : ∀ tx, openAfter tx e = tx) :
    Follows (log ++ [e]) { s with staged := some (tx, w.insert key v) } := by
  have hids := ids_concat_none log hstarted
  have hcommits := commits_concat_none log hcommitted
  obtain ⟨hmem, hnot, hlookup, horder⟩ := h.staging tx w hopen
  -- the write counts for the open transaction, and for no committed one
  have hown (p : UInt64 → Prop) [DecidablePred p] (hp : p tx) :
      writes p (log ++ [e]) = writes p log ++ [(tx, key, v)] := by
    rw [writes_concat, hwritten, Option.toList_some, List.filter_singleton, decide_eq_true hp]
    rfl
  have hother : writes (· ∈ commits log) (log ++ [e]) = writes (· ∈ commits log) log := by
    rw [writes_concat, hwritten, Option.toList_some, List.filter_singleton, decide_eq_false hnot]
    exact List.append_nil _
  refine ⟨?_, ?_, ?_, h.accounted.concat hstarted ?_ ?_⟩
  · rw [opened_concat, hafter, ← h.opened_eq, hopen]
    rfl
  · intro k
    rw [mapOf, hcommits, hother]
    exact h.get_eq k
  · intro tx' w' hw'
    cases hw'
    refine ⟨hids ▸ hmem, hcommits ▸ hnot, ?_, ?_⟩
    · intro k
      rw [hown (· = tx) rfl, lastWrite_append, lastWrite_singleton]
      by_cases hk : k = key
      · subst hk
        rw [Finmap.lookup_insert, if_pos rfl]
        rfl
      · rw [Finmap.lookup_insert_of_ne _ hk, if_neg (Ne.symm hk), hlookup]
        rfl
    · have htx : tx ∈ commits log ++ [tx] := List.mem_append_right _ (List.mem_singleton.2 rfl)
      rw [hcommits, hother, hown (· = tx) rfl, hown (· ∈ commits log ++ [tx]) htx, horder,
        List.append_assoc]
  · intro w' hw'
    rw [hwritten] at hw'
    cases hw'
    exact hmem
  · intro tx' htx'
    rw [hcommitted] at htx'
    cases htx'

/-- The open transaction is committed: its writes are the last ones, whatever order they are applied
in. -/
theorem Follows.commit (h : Follows log s) (σ : Enumeration) {tx : UInt64}
    {w : Dict (List B) (Option (List B))} (hopen : s.staged = some (tx, w)) :
    Follows (log ++ [(.commit σ tx, .done)])
      { s with staged := none, committed := (σ.list w).foldl applyWrite s.committed } := by
  obtain ⟨hmem, -, hlookup, horder⟩ := h.staging tx w hopen
  have hcommits : commits (log ++ [(.commit σ tx, .done)]) = commits log ++ [tx] := commits_concat
  refine ⟨?_, ?_, ?_, h.accounted.concat rfl ?_ ?_⟩
  · rw [opened_concat]
    rfl
  · intro key
    have hget : s.committed.lookup key = mapOf log key := h.get_eq key
    rw [mapOf, hcommits, writes_concat_none rfl, horder, lastWrite_append, get, lookup_applyWrites,
      hlookup, hget, mapOf]
    cases lastWrite key (writes (· = tx) log) <;> rfl
  · intro tx' w' hw'
    cases hw'
  · intro w' hw'
    cases hw'
  · intro tx' htx'
    cases htx'
    exact hmem

/-- The open transaction is forgotten. -/
theorem Follows.abort (h : Follows log s) (tx : UInt64) :
    Follows (log ++ [(.abort tx, .done)]) { s with staged := none } := by
  refine ⟨?_, ?_, ?_, h.accounted.concat rfl ?_ ?_⟩
  · rw [opened_concat]
    rfl
  · intro key
    rw [mapOf, commits_concat_none _ rfl, writes_concat_none rfl]
    exact h.get_eq key
  · intro tx' w' hw'
    cases hw'
  · intro w' hw'
    cases hw'
  · intro tx' htx'
    cases htx'

/-! ### Every call -/

omit [Alphabet B] in
/-- A call that is answered with an error, a panic, a value or an epoch changes nothing a log shows. -/
theorem quiet_of_answer {call : Call B} {a : Answer B} (hdone : a ≠ .done)
    (hstarted : ∀ tx, a ≠ .started tx) : Quiet (call, a) := by
  cases a with
  | done => exact absurd rfl hdone
  | started tx => exact absurd rfl (hstarted tx)
  | value v => exact ⟨by cases call <;> rfl, by cases call <;> rfl, by cases call <;> rfl,
      fun _ ↦ by cases call <;> rfl⟩
  | epoch v => exact ⟨by cases call <;> rfl, by cases call <;> rfl, by cases call <;> rfl,
      fun _ ↦ by cases call <;> rfl⟩
  | err v => exact ⟨by cases call <;> rfl, by cases call <;> rfl, by cases call <;> rfl,
      fun _ ↦ by cases call <;> rfl⟩
  | panic => exact ⟨by cases call <;> rfl, by cases call <;> rfl, by cases call <;> rfl,
      fun _ ↦ by cases call <;> rfl⟩

/-- **A wrong id** is refused, and changes nothing. -/
theorem perform_of_wrong_id {call : Call B} {tx : UInt64} (hcall : call.tx? = some tx)
    (h : s.staged.map Prod.fst ≠ some tx) : s.perform call = (.err .internal, s) := by
  have hstage (key : List B) (v : Option (List B)) : s.stage tx key v = (.error .internal, s) := by
    unfold MemoryStorage.stage
    cases hs : s.staged with
    | none => rfl
    | some p =>
      rw [hs] at h
      exact if_pos fun heq ↦ h (congrArg some heq)
  have hcommit (σ : Enumeration) : s.commit σ tx = (.error .internal, s) := by
    unfold MemoryStorage.commit
    cases hs : s.staged with
    | none => rfl
    | some p =>
      rw [hs] at h
      exact if_pos fun heq ↦ h (congrArg some heq)
  have habort : s.abort tx = (.error .internal, s) := by
    unfold MemoryStorage.abort
    cases hs : s.staged with
    | none => rfl
    | some p =>
      rw [hs] at h
      exact if_neg fun heq ↦ h (congrArg some heq)
  cases call with
  | put tx' key value =>
    cases hcall
    rw [perform, hstage]
    rfl
  | delete tx' key =>
    cases hcall
    rw [perform, hstage]
    rfl
  | commit σ tx' =>
    cases hcall
    rw [perform, hcommit]
    rfl
  | abort tx' =>
    cases hcall
    rw [perform, habort]
    rfl
  | begin => cases hcall
  | get key => cases hcall
  | advanceEpoch => cases hcall

/-- **The right id** is served. -/
theorem perform_of_right_id {call : Call B} {tx : UInt64} (hcall : call.tx? = some tx)
    (h : s.staged.map Prod.fst = some tx) (hlog : Follows log s) :
    (s.perform call).1 = .done ∧ Follows (log ++ [(call, .done)]) (s.perform call).2 := by
  obtain ⟨⟨tx', w⟩, hs, htx⟩ := Option.map_eq_some_iff.1 h
  cases htx
  have hstage (key : List B) (v : Option (List B)) : s.stage tx' key v =
      (.ok (), { s with staged := some (tx', w.insert key v) }) := by
    rw [MemoryStorage.stage, hs]
    exact if_neg fun hne ↦ hne rfl
  cases call with
  | put tx key value =>
    cases hcall
    rw [perform, hstage]
    exact ⟨rfl, hlog.stage hs rfl rfl rfl fun _ ↦ rfl⟩
  | delete tx key =>
    cases hcall
    rw [perform, hstage]
    exact ⟨rfl, hlog.stage hs rfl rfl rfl fun _ ↦ rfl⟩
  | commit σ tx =>
    cases hcall
    have hcommit : s.commit σ tx' = (.ok (), { s with
        staged := none, committed := (σ.list w).foldl applyWrite s.committed }) := by
      rw [MemoryStorage.commit, hs]
      exact if_neg fun hne ↦ hne rfl
    rw [perform, hcommit]
    exact ⟨rfl, hlog.commit σ hs⟩
  | abort tx =>
    cases hcall
    have habort : s.abort tx' = (.ok (), { s with staged := none }) := by
      rw [MemoryStorage.abort, hs]
      exact if_pos rfl
    rw [perform, habort]
    exact ⟨rfl, hlog.abort tx'⟩
  | begin => cases hcall
  | get key => cases hcall
  | advanceEpoch => cases hcall

/-- `begin`: refused while a transaction is open, else a new id. -/
theorem perform_begin : (∃ p, s.staged = some p ∧ s.perform .begin = (.err .internal, s)) ∨
    (s.staged = none ∧ ¬ s.nextTx.toNat + 1 < 2 ^ 64 ∧ s.perform .begin = (.panic, s)) ∨
    (s.staged = none ∧ s.nextTx.toNat + 1 < 2 ^ 64 ∧ s.perform .begin =
      (.started s.nextTx, { s with nextTx := s.nextTx + 1, staged := some (s.nextTx, ∅) })) := by
  cases hs : s.staged with
  | some p =>
    refine .inl ⟨p, rfl, ?_⟩
    rw [perform, if_neg (fun h ↦ by rw [hs] at h; cases h.1), MemoryStorage.begin_, hs]
  | none =>
    refine .inr ?_
    by_cases hnext : s.nextTx.toNat + 1 < 2 ^ 64
    · refine .inr ⟨rfl, hnext, ?_⟩
      rw [perform, if_neg (fun h ↦ h.2 hnext), MemoryStorage.begin_, hs]
    · refine .inl ⟨rfl, hnext, ?_⟩
      rw [perform, if_pos ⟨hs, hnext⟩]

/-- The epoch advances by one, or has reached its end. -/
theorem perform_advanceEpoch :
    s.perform .advanceEpoch = (.epoch (s.epoch + 1), { s with epoch := s.epoch + 1 }) ∨
      s.perform .advanceEpoch = (.err .limitExceeded, s) := by
  by_cases h : s.epoch.toNat + 1 < 2 ^ 64
  · refine .inl ?_
    rw [perform, MemoryStorage.advanceEpoch, if_pos h]
  · refine .inr ?_
    rw [perform, MemoryStorage.advanceEpoch, if_neg h]

/-- **One call** keeps the storage on the log. -/
theorem Follows.perform (h : Follows log s) (call : Call B) :
    Follows (log ++ [(call, (s.perform call).1)]) (s.perform call).2 := by
  cases htx : call.tx? with
  | some tx =>
    by_cases hs : s.staged.map Prod.fst = some tx
    · obtain ⟨hdone, hfollows⟩ := perform_of_right_id htx hs h
      rw [hdone]
      exact hfollows
    · rw [perform_of_wrong_id htx hs]
      exact h.quiet (quiet_of_answer (fun h ↦ by cases h) fun _ h ↦ by cases h)
  | none =>
    cases call with
    | begin =>
      obtain ⟨p, -, heq⟩ | ⟨-, -, heq⟩ | ⟨-, hnext, heq⟩ := perform_begin (s := s)
      · rw [heq]
        exact h.quiet (quiet_of_answer (fun h ↦ by cases h) fun _ h ↦ by cases h)
      · rw [heq]
        exact h.quiet (quiet_of_answer (fun h ↦ by cases h) fun _ h ↦ by cases h)
      · rw [heq]
        exact h.begin_ hnext
    | get key => exact h.quiet (quiet_of_answer (fun h ↦ by cases h) fun _ h ↦ by cases h)
    | advanceEpoch =>
      rcases perform_advanceEpoch (s := s) with heq | heq
      · rw [heq]
        have hnew : Follows log { s with epoch := s.epoch + 1 } := h.congr rfl rfl rfl
        exact hnew.quiet (quiet_of_answer (fun h ↦ by cases h) fun _ h ↦ by cases h)
      · rw [heq]
        exact h.quiet (quiet_of_answer (fun h ↦ by cases h) fun _ h ↦ by cases h)
    | put tx key value => cases htx
    | delete tx key => cases htx
    | commit σ tx => cases htx
    | abort tx => cases htx

/-- Every run. -/
theorem run_follows (calls : List (Call B)) : Follows (run calls).1 (run calls).2 := by
  induction calls using List.reverseRecOn with
  | nil => exact follows_empty
  | append_singleton calls call ih =>
    rw [run, List.foldl_append, List.foldl_cons, List.foldl_nil]
    exact ih.perform call

/-- **`MemoryStorage` refines an atomic map.** After every run, whatever transaction ids its calls
named:

* a `get` returns what the last write of a committed transaction left under the key, and changes
  nothing;
* the storage has at most the one transaction open that the log leaves open, and while it is open
  `begin` is refused and changes nothing;
* while none is open and fewer than `2 ^ 64 - 1` ids were handed out, `begin` hands out one that was
  not;
* a call with the id of the open transaction is served, a call with any other id is refused and changes
  nothing;
* no id has been handed out twice. -/
theorem run_refines (calls : List (Call B)) :
    (∀ key, (run calls).2.perform (.get key) = (.value (mapOf (run calls).1 key), (run calls).2)) ∧
    (run calls).2.staged.map Prod.fst = opened (run calls).1 ∧
    (opened (run calls).1 ≠ none → (run calls).2.perform .begin = (.err .internal, (run calls).2)) ∧
    (opened (run calls).1 = none → (ids (run calls).1).length + 1 < 2 ^ 64 →
      ∃ tx ∉ ids (run calls).1, ((run calls).2.perform .begin).1 = .started tx) ∧
    (∀ call tx, call.tx? = some tx → opened (run calls).1 = some tx →
      ((run calls).2.perform call).1 = .done) ∧
    (∀ call tx, call.tx? = some tx → opened (run calls).1 ≠ some tx →
      (run calls).2.perform call = (.err .internal, (run calls).2)) ∧
    (ids (run calls).1).Nodup := by
  have h := run_follows calls
  refine ⟨?_, h.opened_eq, ?_, ?_, ?_, ?_, h.accounted.ids_nodup⟩
  · intro key
    rw [perform, h.get_eq]
  · intro hopen
    rw [← h.opened_eq] at hopen
    obtain ⟨p, -, heq⟩ | ⟨hs, -⟩ | ⟨hs, -⟩ := perform_begin (s := (run calls).2)
    · exact heq
    · exact absurd (by rw [hs]; rfl) hopen
    · exact absurd (by rw [hs]; rfl) hopen
  · intro hopen hleft
    rw [← h.opened_eq] at hopen
    rw [← h.accounted.nextTx_eq] at hleft
    obtain ⟨p, hp, -⟩ | ⟨-, hnone, -⟩ | ⟨-, -, heq⟩ := perform_begin (s := (run calls).2)
    · rw [hp] at hopen
      cases hopen
    · exact absurd hleft hnone
    · refine ⟨(run calls).2.nextTx, fun hmem ↦ lt_irrefl _ (h.accounted.ids_lt _ hmem), ?_⟩
      rw [heq]
  · intro call tx hcall hopen
    exact (perform_of_right_id hcall (h.opened_eq.trans hopen) h).1
  · intro call tx hcall hopen
    exact perform_of_wrong_id hcall (h.opened_eq ▸ hopen)

end MemoryStorage

end VoiceChatCrypto
