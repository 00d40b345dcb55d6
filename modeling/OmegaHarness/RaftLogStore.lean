import OmegaHarness.EntryCommits
import OmegaHarness.SubmittedCommitments

/-!
# The log store

The rows of the log and the metadata row of the last purge, as the calls of the
consensus library write and read them, and the indexed log which they refine: a map
from indices to entries in which an append overwrites, a deletion removes the end and
a purge removes the beginning. SQLite's integers end at 2^63-1, so a range whose
half-open form needs the bound 2^63 is refused.
-/
namespace OmegaHarness.RaftLogStore
open DomainHashes FaultyTransactions FaultStreams KeyedTables LedgerStore RaftTypes
open LedgerWriter RaftStorage EntryCommits SubmittedCommitments

inductive Bound where
  | included (value : UInt64)
  | excluded (value : UInt64)
  | unbounded
  deriving DecidableEq, Repr

def checkedSucc (message : String) (value : UInt64) : Except StorageError UInt64 :=
  if value.toNat = 2^64-1 then .error (stoRead message) else .ok (value+1)

def rangeStart : Bound → Except StorageError UInt64
  | .included value => .ok value
  | .excluded value => checkedSucc "range start overflows u64" value
  | .unbounded => .ok 0

def rangeEnd : Bound → Except StorageError (Option UInt64)
  | .included value => (checkedSucc "range end overflows u64" value).map some
  | .excluded value => .ok (some value)
  | .unbounded => .ok none

/-- The half-open form of a range. -/
def rangeBounds (lower upper : Bound) : Except StorageError (UInt64 × Option UInt64) := do
  let start ← rangeStart lower
  let stop ← rangeEnd upper
  return (start,stop)

/-- An index as a parameter of a query. -/
def readIndex (index : UInt64) : Except StorageError ℤ :=
  (sqliteI64 "log_idx" index).mapError fun e => stoRead e.display

/-- `SELECT payload FROM raft_log WHERE ... ORDER BY log_idx ASC`. -/
def selectRows (start : ℤ) (stop : Option ℤ) (db : Db) : List (ℤ × LogRow) :=
  (sortedRows db.raftLog).filter fun row =>
    decide (start ≤ row.1) && stop.all fun bound => decide (row.1 < bound)

def selectPayloads (start : ℤ) (stop : Option ℤ) (db : Db) : List Bytes :=
  (selectRows start stop db).map fun row => row.2.payload

theorem mem_selectRows {start : ℤ} {stop : Option ℤ} {db : Db} {row : ℤ × LogRow} :
    row ∈ selectRows start stop db ↔
      db.raftLog.lookup row.1 = some row.2 ∧ start ≤ row.1 ∧ ∀ bound ∈ stop, row.1 < bound := by
  rw [selectRows,List.mem_filter,mem_sortedRows]
  cases stop <;> simp

theorem selectRows_ascending (start : ℤ) (stop : Option ℤ) (db : Db) :
    (selectRows start stop db).Pairwise fun a b => a.1 < b.1 :=
  List.Pairwise.filter _ (sortedRows_ascending db.raftLog)

structure LogState where
  lastPurgedLogId : Option LogId
  lastLogId : Option LogId
  deriving DecidableEq, Repr

section Reads
variable (cbor : Cbor)

/-- Take a connection, prepare the query, run it and decode its rows. -/
def readEntries (start : UInt64) (stop : Option UInt64) : StorageOp (List Entry) := do
  mark stoRead
  mark stoRead
  let start ← ofExcept (readIndex start)
  let stop ← ofExcept (stop.mapM readIndex)
  let payloads ← statement stoRead fun db => .ok (selectPayloads start stop db,db)
  ofExcept (payloads.mapM (decode cbor.entry))

def tryGetLogEntries (lower upper : Bound) : StorageOp (List Entry) := do
  let range ← ofExcept (rangeBounds lower upper)
  match range.2 with
  | some stop => if stop ≤ range.1 then pure [] else readEntries cbor range.1 (some stop)
  | none => readEntries cbor range.1 none

def decodeLogId (payload : Option Bytes) : Except StorageError (Option LogId) :=
  match payload with
  | none => .ok none
  | some bytes => (decode cbor.entry bytes).map fun entry => some entry.logId

def getLogState : StorageOp LogState := do
  let lastPurged ← readMeta cbor.logId .lastPurgedLogId
  mark stoRead
  let payload ← statement stoRead fun db =>
    .ok ((sortedRows db.raftLog).getLast?.map fun row => row.2.payload,db)
  let lastLogId ← ofExcept (decodeLogId cbor payload)
  pure ⟨lastPurged,lastLogId.or lastPurged⟩

inductive LogCall where
  | append (entries : List Entry)
  | deleteSince (logId : LogId)
  | purgeUpto (logId : LogId)
  deriving DecidableEq, Repr

def runLogCall : LogCall → StorageOp Unit
  | .append entries => appendToLog cbor entries
  | .deleteSince logId => deleteConflictLogsSince logId
  | .purgeUpto logId => purgeLogsUpto cbor logId

def runLogCalls : List LogCall → StorageOp Unit
  | [] => pure ()
  | call::rest => do
      runLogCall cbor call
      runLogCalls rest

/-- Numbers which SQLite can hold and values within the payload limit. -/
def Valid : LogCall → Prop
  | .append entries => ∀ e ∈ entries, e.logId.index.toNat < 2^63 ∧
      e.logId.leaderId.term.toNat < 2^63 ∧ ∃ bytes, encode cbor.entry e = .ok bytes
  | .deleteSince logId => logId.index.toNat < 2^63
  | .purgeUpto logId => logId.index.toNat < 2^63 ∧ ∃ bytes, encode cbor.logId logId = .ok bytes

end Reads

/-- A log as the consensus library sees it: entries by their indices, and the id up to
which the beginning was purged. -/
structure IndexedLog where
  entries : ℕ → Option Entry
  lastPurged : Option LogId

namespace IndexedLog

def empty : IndexedLog := ⟨fun _ => none,none⟩

def put (log : IndexedLog) (e : Entry) : IndexedLog :=
  { log with entries := Function.update log.entries e.logId.index.toNat (some e) }

theorem put_self (log : IndexedLog) (e : Entry) :
    (log.put e).entries e.logId.index.toNat = some e := Function.update_self ..

theorem put_of_ne (log : IndexedLog) {e : Entry} {i : ℕ} (h : i ≠ e.logId.index.toNat) :
    (log.put e).entries i = log.entries i := Function.update_of_ne h ..

def step (log : IndexedLog) : LogCall → IndexedLog
  | .append entries => entries.foldl put log
  | .deleteSince logId =>
      { log with entries := fun i => if i < logId.index.toNat then log.entries i else none }
  | .purgeUpto logId =>
      ⟨fun i => if logId.index.toNat < i then log.entries i else none,some logId⟩

def run (log : IndexedLog) (calls : List LogCall) : IndexedLog := calls.foldl step log

end IndexedLog

/-- The first index of a range. -/
def firstIndex : Bound → ℕ
  | .included value => value.toNat
  | .excluded value => value.toNat+1
  | .unbounded => 0

/-- The index behind a range. -/
def endIndex : Bound → Option ℕ
  | .included value => some (value.toNat+1)
  | .excluded value => some value.toNat
  | .unbounded => none

def Bound.InSqlite : Bound → Prop
  | .included value => value.toNat < 2^63
  | .excluded value => value.toNat < 2^63
  | .unbounded => True

instance decidableInSqlite : (bound : Bound) → Decidable bound.InSqlite
  | .included value => inferInstanceAs (Decidable (value.toNat < 2^63))
  | .excluded value => inferInstanceAs (Decidable (value.toNat < 2^63))
  | .unbounded => inferInstanceAs (Decidable True)

/-- The ranges whose half-open form needs the bound 2^63: those which end with 2^63-1,
unless they start behind it, and those which start behind it and do not end. -/
def Refused (lower : Bound) : Bound → Prop
  | .included high => high = 9223372036854775807 ∧ lower ≠ .excluded 9223372036854775807
  | .excluded _ => False
  | .unbounded => lower = .excluded 9223372036854775807

instance decidableRefused (lower : Bound) : (upper : Bound) → Decidable (Refused lower upper)
  | .included high =>
      inferInstanceAs (Decidable (high = 9223372036854775807 ∧
        lower ≠ .excluded 9223372036854775807))
  | .excluded _ => inferInstanceAs (Decidable False)
  | .unbounded => inferInstanceAs (Decidable (lower = .excluded 9223372036854775807))

def Above : Bound → ℕ → Prop
  | .included value,i => value.toNat ≤ i
  | .excluded value,i => value.toNat < i
  | .unbounded,_ => True

def Below : Bound → ℕ → Prop
  | .included value,i => i ≤ value.toNat
  | .excluded value,i => i < value.toNat
  | .unbounded,_ => True

/-- The entries of the log in a range, in ascending order of their indices. -/
structure Lists (log : IndexedLog) (lower upper : Bound) (entries : List Entry) : Prop where
  ascending : entries.Pairwise fun a b => a.logId.index < b.logId.index
  complete : ∀ e, e ∈ entries ↔ ∃ i, Above lower i ∧ Below upper i ∧ log.entries i = some e

/-- The last id of the log: that of its greatest entry, or the purged one. -/
def IsLast (log : IndexedLog) (last : Option LogId) : Prop :=
  (∃ i e, log.entries i = some e ∧ last = some e.logId ∧ ∀ j e', log.entries j = some e' → j ≤ i) ∨
    (∀ i, log.entries i = none) ∧ last = log.lastPurged

/-- The rows of the log are the entries of the indexed log, and nothing else. -/
structure Refines (cbor : Cbor) (db : Db) (log : IndexedLog) : Prop where
  stored : ∀ i e, log.entries i = some e → e.logId.index.toNat = i ∧ i < 2^63 ∧
    ∃ bytes, encode cbor.entry e = .ok bytes ∧
      db.raftLog.lookup (i : ℤ) = some ⟨e.logId.leaderId.term.toNat,bytes⟩
  only : ∀ k row, db.raftLog.lookup k = some row →
    ∃ (i : ℕ) (e : Entry), k = (i : ℤ) ∧ log.entries i = some e
  purged : metaValue cbor.logId .lastPurgedLogId db = .ok log.lastPurged

section Writes
variable {cbor : Cbor} {db : Db} {log : IndexedLog}

theorem refines_empty : Refines cbor emptyDb .empty where
  stored _ _ h := nomatch h
  only k row h := by
    rw [emptyDb,Finmap.lookup_empty] at h
    cases h
  purged := by
    rw [metaValue,emptyDb,Finmap.lookup_empty]
    rfl

def putRow (db : Db) (row : RaftLogRow) : Db :=
  { db with raftLog := db.raftLog.insert (row.logIdx.toNat : ℤ) ⟨row.term.toNat,row.payload⟩ }

/-- An appended entry replaces the row of its index. -/
theorem refines_putRow (h : Refines cbor db log) {e : Entry} {bytes : Bytes}
    (hindex : e.logId.index.toNat < 2^63) (hencode : encode cbor.entry e = .ok bytes) :
    Refines cbor (putRow db ⟨e.logId.index,e.logId.leaderId.term,bytes⟩) (log.put e) where
  stored i e' he' := by
    by_cases hi : i = e.logId.index.toNat
    · rw [hi,IndexedLog.put_self] at he'
      cases he'
      rw [hi]
      exact ⟨rfl,hindex,bytes,hencode,Finmap.lookup_insert _⟩
    · rw [IndexedLog.put_of_ne log hi] at he'
      rcases h.stored i e' he' with ⟨hsame,hlt,bytes',hencode',hlookup⟩
      refine ⟨hsame,hlt,bytes',hencode',?_⟩
      have hne : (i : ℤ) ≠ (e.logId.index.toNat : ℤ) := fun heq => hi (Int.ofNat.inj heq)
      exact (Finmap.lookup_insert_of_ne _ hne).trans hlookup
  only k row hrow := by
    by_cases hk : k = (e.logId.index.toNat : ℤ)
    · exact ⟨_,e,hk,log.put_self e⟩
    · rcases h.only k row ((Finmap.lookup_insert_of_ne _ hk).symm.trans hrow) with ⟨i,e',hi,he'⟩
      refine ⟨i,e',hi,?_⟩
      have hne : i ≠ e.logId.index.toNat := fun heq => hk (hi.trans (congrArg Int.ofNat heq))
      exact (log.put_of_ne hne).trans he'
  purged := h.purged

theorem appendRows_calm {rows : List RaftLogRow}
    (h : ∀ row ∈ rows, row.logIdx.toNat < 2^63 ∧ row.term.toNat < 2^63) (db : Db)
    (outside : Outside) :
    (appendRows rows).run (calmAt db outside) = (.ok (),calmAt (rows.foldl putRow db) outside) := by
  induction rows generalizing db with
  | nil => rfl
  | cons row rest ih =>
      have hrow := h row List.mem_cons_self
      have hrest := ih (fun r hr => h r (List.mem_cons_of_mem row hr)) (putRow db row)
      exact ofExcept_bind_ok.mpr ⟨_,sqliteI64_ok.mpr ⟨hrow.1,rfl⟩,
        ofExcept_bind_ok.mpr ⟨_,sqliteI64_ok.mpr ⟨hrow.2,rfl⟩,
          bind_ok.mpr ⟨(),_,execute_calm.mpr ⟨_,rfl,rfl⟩,hrest⟩⟩⟩

/-- The rows of valid entries, and the log after they were put one after the other. -/
theorem encodeRows_refine {entries : List Entry} (hvalid : Valid cbor (.append entries))
    (h : Refines cbor db log) :
    ∃ rows, entries.mapM (encodeRow cbor) = .ok rows ∧
      (∀ row ∈ rows, row.logIdx.toNat < 2^63 ∧ row.term.toNat < 2^63) ∧
      Refines cbor (rows.foldl putRow db) (entries.foldl IndexedLog.put log) := by
  induction entries generalizing db log with
  | nil => exact ⟨[],rfl,fun _ hr => (List.not_mem_nil hr).elim,h⟩
  | cons e rest ih =>
      rcases List.forall_mem_cons.mp hvalid with ⟨⟨hindex,hterm,bytes,hencode⟩,hrest⟩
      rcases ih hrest (refines_putRow h hindex hencode) with ⟨rows,hrows,hrange,hrefines⟩
      refine ⟨⟨e.logId.index,e.logId.leaderId.term,bytes⟩::rows,?_,
        List.forall_mem_cons.mpr ⟨⟨hindex,hterm⟩,hrange⟩,hrefines⟩
      rw [List.mapM_cons,encodeRow,hencode,hrows]
      rfl

/-- A kept row is a kept entry. -/
theorem refines_keepRows (h : Refines cbor db log) {keep : ℤ → Bool} {kept : ℕ → Prop}
    [DecidablePred kept] (hkeep : ∀ i : ℕ, keep (i : ℤ) = true ↔ kept i) :
    Refines cbor { db with raftLog := keepRows keep db.raftLog }
      { log with entries := fun i => if kept i then log.entries i else none } where
  stored i e he := by
    dsimp only at he ⊢
    by_cases hi : kept i
    · rw [if_pos hi] at he
      rw [lookup_keepRows,if_pos ((hkeep i).mpr hi)]
      exact h.stored i e he
    · rw [if_neg hi] at he
      cases he
  only k row hrow := by
    dsimp only at hrow ⊢
    rw [lookup_keepRows] at hrow
    by_cases hk : keep k = true
    · rw [if_pos hk] at hrow
      rcases h.only k row hrow with ⟨i,e,hi,he⟩
      rw [hi] at hk
      exact ⟨i,e,hi,(if_pos ((hkeep i).mp hk)).trans he⟩
    · rw [if_neg hk] at hrow
      cases hrow
  purged := h.purged

theorem refines_purged (hround : cbor.logId.RoundTrips) {logId : LogId} {bytes : Bytes}
    (hencode : encode cbor.logId logId = .ok bytes) (h : Refines cbor db log) :
    Refines cbor (putMeta .lastPurgedLogId bytes db) { log with lastPurged := some logId } where
  stored := h.stored
  only := h.only
  purged := by
    rw [metaValue,putMeta,Finmap.lookup_insert]
    dsimp only
    rw [decode_encode hround hencode]
    rfl

/-- Every valid call succeeds and follows the indexed log. -/
theorem runLogCall_refines (hround : cbor.logId.RoundTrips) {call : LogCall} (hvalid : Valid cbor call)
    (h : Refines cbor db log) (outside : Outside) :
    ∃ db', (runLogCall cbor call).run (calmAt db outside) = (.ok (),calmAt db' outside) ∧
      Refines cbor db' (log.step call) := by
  cases call with
  | append entries =>
      rcases encodeRows_refine hvalid h with ⟨rows,hrows,hrange,hrefines⟩
      exact ⟨_,ofExcept_bind_ok.mpr ⟨rows,hrows,
        mapFailure_ok.mpr (transaction_calm (appendRows_calm hrange db outside))⟩,hrefines⟩
  | deleteSince logId =>
      have hkeep : ∀ i : ℕ, decide ((i : ℤ) < (logId.index.toNat : ℤ)) = true ↔
          i < logId.index.toNat := by
        intro i
        rw [decide_eq_true_eq,Nat.cast_lt]
      exact ⟨_,mapFailure_ok.mpr (ofExcept_bind_ok.mpr ⟨_,sqliteI64_ok.mpr ⟨hvalid,rfl⟩,
        execute_calm.mpr ⟨_,rfl,rfl⟩⟩),refines_keepRows h hkeep⟩
  | purgeUpto logId =>
      rcases hvalid with ⟨hindex,bytes,hencode⟩
      have hkeep : ∀ i : ℕ, decide ((logId.index.toNat : ℤ) < (i : ℤ)) = true ↔
          logId.index.toNat < i := by
        intro i
        rw [decide_eq_true_eq,Nat.cast_lt]
      have hpurge : (purgeRaftLogsUpto logId.index bytes).run (calmAt db outside) = (.ok (),calmAt
          (putMeta .lastPurgedLogId bytes { db with
            raftLog := keepRows (fun k => decide ((logId.index.toNat : ℤ) < k)) db.raftLog })
          outside) :=
        transaction_calm (ofExcept_bind_ok.mpr ⟨_,sqliteI64_ok.mpr ⟨hindex,rfl⟩,
          bind_ok.mpr ⟨(),_,execute_calm.mpr ⟨_,rfl,rfl⟩,execute_calm.mpr ⟨_,rfl,rfl⟩⟩⟩)
      exact ⟨_,ofExcept_bind_ok.mpr ⟨bytes,hencode,mapFailure_ok.mpr hpurge⟩,
        refines_purged hround hencode (refines_keepRows h hkeep)⟩

theorem runLogCalls_refines (hround : cbor.logId.RoundTrips) {calls : List LogCall}
    (hvalid : ∀ call ∈ calls, Valid cbor call) (h : Refines cbor db log) (outside : Outside) :
    ∃ db', (runLogCalls cbor calls).run (calmAt db outside) = (.ok (),calmAt db' outside) ∧
      Refines cbor db' (log.run calls) := by
  induction calls generalizing db log with
  | nil => exact ⟨db,rfl,h⟩
  | cons call rest ih =>
      rcases List.forall_mem_cons.mp hvalid with ⟨hcall,hrest⟩
      rcases runLogCall_refines hround hcall h outside with ⟨db',hfirst,hrefines⟩
      rcases ih hrest hrefines with ⟨final,hrun,hfinal⟩
      exact ⟨final,bind_ok.mpr ⟨(),_,hfirst,hrun⟩,hfinal⟩

end Writes

section Reads
variable {cbor : Cbor} {db : Db} {log : IndexedLog}

theorem mapM_decode {payloads : List Bytes}
    (h : ∀ bytes ∈ payloads, ∃ e, decode cbor.entry bytes = .ok e) :
    payloads.mapM (decode cbor.entry) =
      .ok (payloads.filterMap fun bytes => (decode cbor.entry bytes).toOption) := by
  induction payloads with
  | nil => rfl
  | cons bytes rest ih =>
      rcases List.forall_mem_cons.mp h with ⟨⟨e,he⟩,hrest⟩
      rw [List.mapM_cons,he,ih hrest,List.filterMap_cons,he]
      rfl

/-- A row is read as the entry of its index. -/
theorem Refines.decodes (h : Refines cbor db log) (hround : cbor.entry.RoundTrips) {k : ℤ}
    {row : LogRow} (hrow : db.raftLog.lookup k = some row) :
    ∃ e, decode cbor.entry row.payload = .ok e ∧ k = (e.logId.index.toNat : ℤ) ∧
      log.entries e.logId.index.toNat = some e := by
  rcases h.only k row hrow with ⟨i,e,rfl,he⟩
  rcases h.stored i e he with ⟨rfl,-,bytes,hencode,hlookup⟩
  rw [hlookup] at hrow
  cases hrow
  exact ⟨e,decode_encode hround hencode,rfl,he⟩

/-- The entries of the selected rows. -/
def selectEntries (cbor : Cbor) (start : ℤ) (stop : Option ℤ) (db : Db) : List Entry :=
  (selectRows start stop db).filterMap fun row => (decode cbor.entry row.2.payload).toOption

theorem selectPayloads_decode (h : Refines cbor db log) (hround : cbor.entry.RoundTrips) (start : ℤ)
    (stop : Option ℤ) :
    (selectPayloads start stop db).mapM (decode cbor.entry) =
      .ok (selectEntries cbor start stop db) := by
  have hentries : (selectPayloads start stop db).filterMap
      (fun bytes => (decode cbor.entry bytes).toOption) = selectEntries cbor start stop db :=
    List.filterMap_map ..
  rw [← hentries]
  apply mapM_decode
  intro bytes hbytes
  rcases List.mem_map.mp hbytes with ⟨row,hrow,rfl⟩
  rcases h.decodes hround (mem_selectRows.mp hrow).1 with ⟨e,he,-⟩
  exact ⟨e,he⟩

theorem selectEntries_ascending (h : Refines cbor db log) (hround : cbor.entry.RoundTrips) (start : ℤ)
    (stop : Option ℤ) :
    (selectEntries cbor start stop db).Pairwise fun a b => a.logId.index < b.logId.index := by
  apply List.pairwise_filterMap.mpr
  apply List.Pairwise.imp_of_mem _ (selectRows_ascending start stop db)
  intro a b ha hb hlt e he e' he'
  rcases h.decodes hround (mem_selectRows.mp ha).1 with ⟨ea,hea,hka,-⟩
  rcases h.decodes hround (mem_selectRows.mp hb).1 with ⟨eb,heb,hkb,-⟩
  rw [hea] at he
  rw [heb] at he'
  cases he
  cases he'
  rw [hka,hkb,Nat.cast_lt] at hlt
  exact UInt64.lt_iff_toNat_lt.mpr hlt

/-- The selected entries are those of the interval. -/
theorem mem_selectEntries (h : Refines cbor db log) (hround : cbor.entry.RoundTrips) {start : ℤ}
    {stop : Option ℤ} {e : Entry} :
    e ∈ selectEntries cbor start stop db ↔
      ∃ i : ℕ, start ≤ i ∧ (∀ bound ∈ stop, (i : ℤ) < bound) ∧ log.entries i = some e := by
  rw [selectEntries,List.mem_filterMap]
  constructor
  · intro hmem
    rcases hmem with ⟨row,hrow,he⟩
    have hselected := mem_selectRows.mp hrow
    rcases h.decodes hround hselected.1 with ⟨e',he',hk,hentry⟩
    rw [he'] at he
    cases he
    rw [hk] at hselected
    exact ⟨_,hselected.2.1,hselected.2.2,hentry⟩
  · intro hentry
    rcases hentry with ⟨i,hstart,hstop,hentry⟩
    rcases h.stored i e hentry with ⟨-,-,bytes,hencode,hlookup⟩
    refine ⟨(i,_),mem_selectRows.mpr ⟨hlookup,hstart,hstop⟩,?_⟩
    dsimp only
    rw [decode_encode hround hencode]
    rfl

theorem above_iff (lower : Bound) (i : ℕ) : Above lower i ↔ firstIndex lower ≤ i := by
  cases lower with
  | included value => exact Iff.rfl
  | excluded value => exact Iff.rfl
  | unbounded => exact iff_of_true trivial (Nat.zero_le i)

theorem below_iff (upper : Bound) (i : ℕ) : Below upper i ↔ ∀ bound ∈ endIndex upper, i < bound := by
  cases upper with
  | included value => simp [Below,endIndex]
  | excluded value => simp [Below,endIndex]
  | unbounded => simp [Below,endIndex]

theorem firstIndex_le {lower : Bound} (h : lower.InSqlite) : firstIndex lower ≤ 2^63 := by
  cases lower with
  | included value => exact Nat.le_of_lt h
  | excluded value => exact h
  | unbounded => exact Nat.zero_le _

theorem endIndex_le {upper : Bound} (h : upper.InSqlite) : ∀ bound ∈ endIndex upper, bound ≤ 2^63 := by
  intro bound hbound
  cases upper with
  | included value =>
      cases hbound
      exact h
  | excluded value =>
      cases hbound
      exact Nat.le_of_lt h
  | unbounded => cases hbound

/-- The entries of a half-open interval are those of the range it was made from. -/
theorem lists_of_interval {lower upper : Bound} {start : UInt64} {stop : Option UInt64}
    {entries : List Entry} (hfirst : start.toNat = firstIndex lower)
    (hend : stop.map UInt64.toNat = endIndex upper)
    (hascending : entries.Pairwise fun a b => a.logId.index < b.logId.index)
    (hcomplete : ∀ e, e ∈ entries ↔ ∃ i, start.toNat ≤ i ∧
      (∀ bound ∈ stop.map UInt64.toNat, i < bound) ∧ log.entries i = some e) :
    Lists log lower upper entries := by
  refine ⟨hascending,fun e => ?_⟩
  simp only [above_iff,below_iff,← hfirst,← hend,hcomplete]

theorem checkedSucc_ok {message : String} {value : UInt64} (h : value.toNat < 2^63) :
    checkedSucc message value = .ok (value+1) ∧ (value+1).toNat = value.toNat+1 := by
  have hone : (1 : UInt64).toNat = 1 := rfl
  refine ⟨if_neg (by omega),?_⟩
  rw [UInt64.toNat_add,hone,Nat.mod_eq_of_lt (by omega)]

theorem rangeStart_ok {lower : Bound} (h : lower.InSqlite) :
    ∃ start, rangeStart lower = .ok start ∧ start.toNat = firstIndex lower := by
  cases lower with
  | included value => exact ⟨value,rfl,rfl⟩
  | excluded value => exact ⟨value+1,checkedSucc_ok h⟩
  | unbounded => exact ⟨0,rfl,rfl⟩

theorem rangeEnd_ok {upper : Bound} (h : upper.InSqlite) :
    ∃ stop, rangeEnd upper = .ok stop ∧ stop.map UInt64.toNat = endIndex upper := by
  cases upper with
  | included value =>
      have hsucc := @checkedSucc_ok "range end overflows u64" value h
      refine ⟨some (value+1),?_,congrArg some hsucc.2⟩
      rw [rangeEnd,hsucc.1]
      rfl
  | excluded value => exact ⟨some value,rfl,rfl⟩
  | unbounded => exact ⟨none,rfl,rfl⟩

theorem readIndex_ok {index : UInt64} (h : index.toNat < 2^63) :
    readIndex index = .ok (index.toNat : ℤ) :=
  FallibleSteps.mapError_ok.mpr (sqliteI64_ok.mpr ⟨h,rfl⟩)

theorem readIndex_error {index : UInt64} (h : ¬index.toNat < 2^63) :
    readIndex index = .error (stoRead (LedgerError.integerOutOfRange "log_idx" index).display) := by
  rw [readIndex,sqliteI64,if_neg h]
  rfl

theorem readIndex_option {stop : Option UInt64} (h : ∀ bound ∈ stop, bound.toNat < 2^63) :
    stop.mapM readIndex = .ok (stop.map fun bound => (bound.toNat : ℤ)) := by
  cases stop with
  | none => rfl
  | some bound =>
      rw [Option.mapM_some,readIndex_ok (h bound rfl)]
      rfl

theorem mark_calm (outside : Outside) :
    (mark stoRead : StorageOp Unit).run (calmAt db outside) = (.ok (),calmAt db outside) := rfl

theorem select_calm {α : Type} (query : Db → α) (outside : Outside) :
    (statement stoRead fun db => .ok (query db,db) : StorageOp α).run (calmAt db outside) =
      (.ok (query db),calmAt db outside) := rfl

/-- A query within SQLite's integers returns the entries of its interval. -/
theorem readEntries_calm (h : Refines cbor db log) (hround : cbor.entry.RoundTrips) {start : UInt64}
    {stop : Option UInt64} (hstart : start.toNat < 2^63) (hstop : ∀ bound ∈ stop, bound.toNat < 2^63)
    (outside : Outside) :
    ∃ entries, (readEntries cbor start stop).run (calmAt db outside) =
        (.ok entries,calmAt db outside) ∧
      (entries.Pairwise fun a b => a.logId.index < b.logId.index) ∧
      ∀ e, e ∈ entries ↔ ∃ i, start.toNat ≤ i ∧ (∀ bound ∈ stop.map UInt64.toNat, i < bound) ∧
        log.entries i = some e := by
  have hdecode := selectPayloads_decode h hround start.toNat
    (stop.map fun bound => (bound.toNat : ℤ))
  refine ⟨selectEntries cbor start.toNat (stop.map fun bound => (bound.toNat : ℤ)) db,?_,
    selectEntries_ascending h hround _ _,?_⟩
  · exact bind_ok.mpr ⟨(),_,mark_calm outside,bind_ok.mpr ⟨(),_,mark_calm outside,
      ofExcept_bind_ok.mpr ⟨_,readIndex_ok hstart,ofExcept_bind_ok.mpr ⟨_,readIndex_option hstop,
        bind_ok.mpr ⟨_,_,select_calm _ outside,ofExcept_ok.mpr ⟨hdecode,rfl⟩⟩⟩⟩⟩⟩
  · intro e
    rw [mem_selectEntries h hround]
    cases stop <;> simp

/-- The error of a bound which SQLite cannot hold. -/
def indexOutOfRange (index : UInt64) : StorageError :=
  stoRead (LedgerError.integerOutOfRange "log_idx" index).display

theorem readEntries_start_refused {start : UInt64} (h : ¬start.toNat < 2^63) (stop : Option UInt64)
    (outside : Outside) :
    (readEntries cbor start stop).run (calmAt db outside) =
      (.error (indexOutOfRange start),calmAt db outside) := by
  rw [readEntries,readIndex_error h]
  rfl

theorem readEntries_stop_refused {start stop : UInt64} (hstart : start.toNat < 2^63)
    (hstop : ¬stop.toNat < 2^63) (outside : Outside) :
    (readEntries cbor start (some stop)).run (calmAt db outside) =
      (.error (indexOutOfRange stop),calmAt db outside) := by
  rw [readEntries,readIndex_ok hstart,Option.mapM_some,readIndex_error hstop]
  rfl

theorem rangeBounds_ok {lower upper : Bound} (hlower : lower.InSqlite) (hupper : upper.InSqlite) :
    ∃ start stop, rangeBounds lower upper = .ok (start,stop) ∧ start.toNat = firstIndex lower ∧
      stop.map UInt64.toNat = endIndex upper := by
  rcases rangeStart_ok hlower with ⟨start,hstart,hfirst⟩
  rcases rangeEnd_ok hupper with ⟨stop,hstop,hend⟩
  refine ⟨start,stop,?_,hfirst,hend⟩
  rw [rangeBounds,hstart,hstop]
  rfl

theorem refused_iff {lower upper : Bound} (hlower : lower.InSqlite) (hupper : upper.InSqlite) :
    Refused lower upper ↔ match endIndex upper with
      | some bound => firstIndex lower < bound ∧ bound = 2^63
      | none => firstIndex lower = 2^63 := by
  have hgreatest : (9223372036854775807 : UInt64).toNat = 2^63-1 := rfl
  cases lower <;> cases upper <;>
    simp only [Refused,endIndex,firstIndex,Bound.InSqlite,false_iff,Bound.excluded.injEq,
      ← UInt64.toNat_inj,hgreatest,ne_eq,reduceCtorEq,not_false_eq_true,and_true] at * <;> omega

/-- A half-open range which is not empty is queried. -/
theorem tryGetLogEntries_bounded {lower upper : Bound} {start stop : UInt64}
    (hbounds : rangeBounds lower upper = .ok (start,some stop)) (s : Ledger) :
    (tryGetLogEntries cbor lower upper).run s =
      if stop ≤ start then (.ok [],s) else (readEntries cbor start (some stop)).run s := by
  rw [tryGetLogEntries,hbounds]
  by_cases hempty : stop ≤ start
  · rw [if_pos hempty]
    exact congrArg (fun op : StorageOp (List Entry) => op.run s) (if_pos hempty)
  · rw [if_neg hempty]
    exact congrArg (fun op : StorageOp (List Entry) => op.run s) (if_neg hempty)

theorem tryGetLogEntries_unbounded {lower upper : Bound} {start : UInt64}
    (hbounds : rangeBounds lower upper = .ok (start,none)) (s : Ledger) :
    (tryGetLogEntries cbor lower upper).run s = (readEntries cbor start none).run s := by
  rw [tryGetLogEntries,hbounds]
  rfl

/-- A refused range reports the bound 2^63 and leaves the store as it is. -/
theorem tryGetLogEntries_refused {lower upper : Bound} (hlower : lower.InSqlite)
    (hupper : upper.InSqlite) (hrefused : Refused lower upper) (outside : Outside) :
    (tryGetLogEntries cbor lower upper).run (calmAt db outside) =
      (.error (indexOutOfRange 9223372036854775808),calmAt db outside) := by
  rcases rangeBounds_ok hlower hupper with ⟨start,stop,hbounds,hfirst,hend⟩
  rw [refused_iff hlower hupper,← hfirst,← hend] at hrefused
  cases stop with
  | none =>
      have hlimit : start = 9223372036854775808 := UInt64.toNat.inj hrefused
      subst hlimit
      rw [tryGetLogEntries_unbounded hbounds]
      exact readEntries_start_refused (by decide) none outside
  | some stop =>
      have hlimit : stop = 9223372036854775808 := UInt64.toNat.inj hrefused.2
      subst hlimit
      have hstart : start.toNat < 2^63 := hrefused.1
      rw [tryGetLogEntries_bounded hbounds,
        if_neg (UInt64.not_le.mpr (UInt64.lt_iff_toNat_lt.mpr hstart))]
      exact readEntries_stop_refused hstart (by decide) outside

/-- Any other range returns its entries. -/
theorem tryGetLogEntries_lists (h : Refines cbor db log) (hround : cbor.entry.RoundTrips)
    {lower upper : Bound} (hlower : lower.InSqlite) (hupper : upper.InSqlite)
    (haccepted : ¬Refused lower upper) (outside : Outside) :
    ∃ entries, (tryGetLogEntries cbor lower upper).run (calmAt db outside) =
      (.ok entries,calmAt db outside) ∧ Lists log lower upper entries := by
  rcases rangeBounds_ok hlower hupper with ⟨start,stop,hbounds,hfirst,hend⟩
  rw [refused_iff hlower hupper,← hfirst,← hend] at haccepted
  have hfirstBound := firstIndex_le hlower
  have hendBound := endIndex_le hupper
  rw [← hfirst] at hfirstBound
  rw [← hend] at hendBound
  cases stop with
  | none =>
      rw [tryGetLogEntries_unbounded hbounds]
      have hstart : start.toNat < 2^63 := lt_of_le_of_ne hfirstBound haccepted
      have hstop : ∀ bound ∈ (none : Option UInt64), bound.toNat < 2^63 := by simp
      rcases readEntries_calm h hround hstart hstop outside with ⟨entries,hrun,hascending,hcomplete⟩
      exact ⟨entries,hrun,lists_of_interval hfirst hend hascending hcomplete⟩
  | some stop =>
      rw [tryGetLogEntries_bounded hbounds]
      by_cases hempty : stop ≤ start
      · rw [if_pos hempty]
        refine ⟨[],rfl,lists_of_interval hfirst hend List.Pairwise.nil fun e => ?_⟩
        have hle := UInt64.le_iff_toNat_le.mp hempty
        simp
        omega
      · rw [if_neg hempty]
        have hlt := UInt64.lt_iff_toNat_lt.mp (UInt64.not_le.mp hempty)
        have hlimit : stop.toNat < 2^63 :=
          lt_of_le_of_ne (hendBound _ rfl) fun heq => haccepted ⟨hlt,heq⟩
        have hstop : ∀ bound ∈ some stop, bound.toNat < 2^63 := by
          intro bound hbound
          cases hbound
          exact hlimit
        rcases readEntries_calm h hround (hlt.trans hlimit) hstop outside with
          ⟨entries,hrun,hascending,hcomplete⟩
        exact ⟨entries,hrun,lists_of_interval hfirst hend hascending hcomplete⟩

/-- The last row is that of the greatest entry. -/
theorem getLogState_calm (h : Refines cbor db log) (hround : cbor.entry.RoundTrips)
    (outside : Outside) :
    ∃ last, (getLogState cbor).run (calmAt db outside) =
      (.ok ⟨log.lastPurged,last⟩,calmAt db outside) ∧ IsLast log last := by
  have hreads : ∀ lastLogId, decodeLogId cbor
        ((sortedRows db.raftLog).getLast?.map fun row => row.2.payload) = .ok lastLogId →
      (getLogState cbor).run (calmAt db outside) =
        (.ok ⟨log.lastPurged,lastLogId.or log.lastPurged⟩,calmAt db outside) := by
    intro lastLogId hdecode
    have hpurged : (readMeta cbor.logId .lastPurgedLogId).run (calmAt db outside) =
        (.ok log.lastPurged,calmAt db outside) := by
      rw [readMeta_calm,h.purged]
    exact bind_ok.mpr ⟨_,_,hpurged,bind_ok.mpr ⟨(),_,mark_calm outside,
      bind_ok.mpr ⟨_,_,select_calm _ outside,ofExcept_bind_ok.mpr ⟨_,hdecode,rfl⟩⟩⟩⟩
  cases hlast : (sortedRows db.raftLog).getLast? with
  | none =>
      refine ⟨log.lastPurged,hreads none (by rw [hlast]; rfl),Or.inr ⟨fun i => ?_,rfl⟩⟩
      have hnil := List.getLast?_eq_none_iff.mp hlast
      by_contra hsome
      rcases Option.ne_none_iff_exists'.mp hsome with ⟨e,he⟩
      rcases h.stored i e he with ⟨-,-,bytes,-,hlookup⟩
      have hmem := mem_sortedRows.mpr hlookup
      rw [hnil] at hmem
      exact List.not_mem_nil hmem
  | some row =>
      have hgreatest := sortedRows_getLast hlast
      rcases h.decodes hround hgreatest.1 with ⟨e,hdecode,hkey,hentry⟩
      refine ⟨some e.logId,hreads (some e.logId) ?_,Or.inl ⟨_,e,hentry,rfl,?_⟩⟩
      · rw [hlast,Option.map_some,decodeLogId,hdecode]
        rfl
      · intro j e' he'
        rcases h.stored j e' he' with ⟨-,-,bytes,-,hlookup⟩
        have hle := hgreatest.2 _ _ hlookup
        rw [hkey,Nat.cast_le] at hle
        exact hle

/-- Valid calls succeed and follow the indexed log. A range which needs the bound 2^63
is refused, any other range returns the entries of the log in it, and the state of the
log is the purged id and the last id. -/
theorem log_store_refines (hentry : cbor.entry.RoundTrips) (hid : cbor.logId.RoundTrips)
    {calls : List LogCall} (hvalid : ∀ call ∈ calls, Valid cbor call) (h : Refines cbor db log)
    (outside : Outside) :
    ∃ db', (runLogCalls cbor calls).run (calmAt db outside) = (.ok (),calmAt db' outside) ∧
      Refines cbor db' (log.run calls) ∧
      (∀ lower upper : Bound, lower.InSqlite → upper.InSqlite →
        (Refused lower upper → (tryGetLogEntries cbor lower upper).run (calmAt db' outside) =
          (.error (indexOutOfRange 9223372036854775808),calmAt db' outside)) ∧
        (¬Refused lower upper → ∃ entries,
          (tryGetLogEntries cbor lower upper).run (calmAt db' outside) =
            (.ok entries,calmAt db' outside) ∧ Lists (log.run calls) lower upper entries)) ∧
      ∃ last, (getLogState cbor).run (calmAt db' outside) =
        (.ok ⟨(log.run calls).lastPurged,last⟩,calmAt db' outside) ∧ IsLast (log.run calls) last := by
  rcases runLogCalls_refines hid hvalid h outside with ⟨db',hrun,hrefines⟩
  refine ⟨db',hrun,hrefines,?_,getLogState_calm hrefines hentry outside⟩
  intro lower upper hlower hupper
  exact ⟨fun hrefused => tryGetLogEntries_refused hlower hupper hrefused outside,
    fun haccepted => tryGetLogEntries_lists hrefines hentry hlower hupper haccepted outside⟩

end Reads

section Blank

def blankEntry (index : UInt64) : Entry := ⟨mixedLogId index,.blank⟩

/-- A blank entry in CBOR: the log id and the payload's name. -/
def blankBytes (index : UInt8) : Bytes :=
  [0xa2,0x66,0x6c,0x6f,0x67,0x5f,0x69,0x64]++mixedLogBytes index++
    [0x67,0x70,0x61,0x79,0x6c,0x6f,0x61,0x64,0x65,0x42,0x6c,0x61,0x6e,0x6b]

def blankCbor : Cbor :=
  { mixedCbor with
    entry := listedCodec [(blankEntry 1,blankBytes 1),(blankEntry 2,blankBytes 2)] }

theorem blankEntry_valid : Valid blankCbor (.append [blankEntry 1,blankEntry 2]) := by
  intro e he
  rcases List.mem_pair.mp he with rfl | rfl
  · exact ⟨by decide,by decide,blankBytes 1,rfl⟩
  · exact ⟨by decide,by decide,blankBytes 2,rfl⟩

theorem blankEntry_roundTrips : blankCbor.entry.RoundTrips := by
  apply listedCodec_roundTrips
  decide

theorem mixedLogId_roundTrips : blankCbor.logId.RoundTrips := by
  apply listedCodec_roundTrips
  decide

/-- Two entries are stored, and the range up to and with 2^63-1 returns neither. -/
theorem greatest_index_refused :
    ∃ (cbor : Cbor) (calls : List LogCall) (lower upper : Bound) (db : Db) (e : StorageError),
      cbor.entry.RoundTrips ∧ cbor.logId.RoundTrips ∧ (∀ call ∈ calls, Valid cbor call) ∧
      lower.InSqlite ∧ upper.InSqlite ∧
      (runLogCalls cbor calls).run (calmAt emptyDb ⟨∅,false⟩) = (.ok (),calmAt db ⟨∅,false⟩) ∧
      (∃ i entry, Above lower i ∧ Below upper i ∧
        (IndexedLog.empty.run calls).entries i = some entry) ∧
      (tryGetLogEntries cbor lower upper).run (calmAt db ⟨∅,false⟩) =
        (.error e,calmAt db ⟨∅,false⟩) := by
  have hvalid : ∀ call ∈ [LogCall.append [blankEntry 1,blankEntry 2]], Valid blankCbor call := by
    intro call hcall
    rw [List.mem_singleton.mp hcall]
    exact blankEntry_valid
  rcases runLogCalls_refines mixedLogId_roundTrips hvalid refines_empty ⟨∅,false⟩ with ⟨db,hrun,-⟩
  have hupper : (Bound.included 9223372036854775807).InSqlite := by decide
  have hlower : Bound.unbounded.InSqlite := trivial
  have hbelow : Below (.included 9223372036854775807) 2 := Nat.le_of_ble_eq_true rfl
  exact ⟨blankCbor,_,.unbounded,.included 9223372036854775807,db,_,blankEntry_roundTrips,
    mixedLogId_roundTrips,hvalid,hlower,hupper,hrun,⟨2,blankEntry 2,trivial,hbelow,rfl⟩,
    tryGetLogEntries_refused hlower hupper (by decide) ⟨∅,false⟩⟩

/-- Two entries are appended and the first is purged. -/
theorem purged_log_refines :
    ∃ db, (runLogCalls blankCbor [.append [blankEntry 1,blankEntry 2],
          .purgeUpto (mixedLogId 1)]).run (calmAt emptyDb ⟨∅,false⟩) =
        (.ok (),calmAt db ⟨∅,false⟩) ∧
      (∃ entries, (tryGetLogEntries blankCbor (.included 1) (.included 2)).run
          (calmAt db ⟨∅,false⟩) = (.ok entries,calmAt db ⟨∅,false⟩) ∧
        Lists (IndexedLog.empty.run [.append [blankEntry 1,blankEntry 2],
          .purgeUpto (mixedLogId 1)]) (.included 1) (.included 2) entries) ∧
      ∃ last, (getLogState blankCbor).run (calmAt db ⟨∅,false⟩) =
        (.ok ⟨some (mixedLogId 1),last⟩,calmAt db ⟨∅,false⟩) := by
  have hpurge : Valid blankCbor (.purgeUpto (mixedLogId 1)) :=
    ⟨by decide,mixedLogBytes 1,rfl⟩
  have hvalid : ∀ call ∈ [LogCall.append [blankEntry 1,blankEntry 2],.purgeUpto (mixedLogId 1)],
      Valid blankCbor call :=
    List.forall_mem_cons.mpr ⟨blankEntry_valid,List.forall_mem_singleton.mpr hpurge⟩
  rcases log_store_refines blankEntry_roundTrips mixedLogId_roundTrips hvalid refines_empty
    ⟨∅,false⟩ with ⟨db,hrun,-,hranges,last,hstate,-⟩
  have hone : (Bound.included 1).InSqlite := by decide
  have htwo : (Bound.included 2).InSqlite := by decide
  have haccepted : ¬Refused (.included 1) (.included 2) := by decide
  exact ⟨db,hrun,(hranges _ _ hone htwo).2 haccepted,last,hstate⟩

end Blank

end OmegaHarness.RaftLogStore
