import CexEngine.Runtime.Output

/-!
# The audit

`audit.rs`.  The audit reads the journal file on a connection of its own and returns the published
texts of a range of records, page by page.  A client starts at zero, keeps the cut and the engine of
the first page, and continues from the last record of each page while the journal grows.

What makes the pages complete is that a page proves its own extent.  The query returns whatever rows
lie in the range, so a row that is missing would simply not be there; but the loop takes a row only if
its sequence is the successor of the last one and its checksum and content agree with it.  The rows of
a page that was returned are therefore the records from the start of the request on, without a gap
(`readRows_ok`), and `Audit.read_ok` says so of every page, for any tables at all: nothing is assumed
of the journal, and a `PageOf` is what the reply alone shows.

A page that stops early is the remaining danger.  It stops at the limit of the request, at the cut, or
where the rows end; `length_selectRows` shows that rows without a gap that end before the limit have
reached the cut, if the row at the cut is there.  The reader refuses a page that makes no progress
before the cut, which is why a damaged record ends a chain with an error instead of an empty page.

* `Audit.read_of_published`: the other direction; a range whose records can be read and whose texts fit
  is returned.
* `Audit.Paging`: the chains of requests, among the appends of the journal, which may fall between
  any two of them.
* `Paging.wholePages`: an append adds rows after the last one and changes none, so what the pages so
  far have returned stays what a visit of the journal publishes.
* `Audit.page_eq_ok`: the endpoint returns a page exactly for the requests that are `Served`, and a
  client that continues through it goes through a chain.
-/

namespace CexEngine

open Foundation

/-- What the file of a journal holds. -/
structure Database where
  userVersion : ℕ
  store : Store

structure PageQuery where
  after : ℕ
  through : Option ℕ
  engineId : Option String
  limit : Option ℕ

structure AuditPage where
  engineId : String
  through : ℕ
  nextAfter : ℕ
  events : List String
  deriving DecidableEq

namespace Audit

variable {Json : Type} (codec : Codec Json) (toJson : FinancialEvent → Except String String)

/-- The most bytes of a page. -/
def maxBytes : ℕ := 4 * 1024 * 1024

/-- The callback of the audit: count the bytes and keep the text. -/
def push (_ : ℕ) (payload : String) : EventVisit (ℕ × List String) Unit := do
  let (bytes, events) ← get
  let bytes := bytes + payload.utf8ByteSize
  if maxBytes < bytes then throw ⟨0, "감사 페이지 크기 초과"⟩
  else set (bytes, events ++ [payload])

/-- The events of a record, after the ones collected so far. -/
def visitRecord (position : Position) (record : Record) (collected : ℕ × List String) :
    Except Fault (ℕ × List String) :=
  match record.outcome with
  | .applied (some batch) =>
    match EventVisit.run (Output.visitEvents toJson batch position push) collected with
    | (.ok _, collected) => .ok collected
    | (.error error, _) => .error (.err error.reason)
  | _ => pure collected

/-- One round of the loop over the rows: the bytes so far and the page. -/
def readRow (bytes : ℕ) (page : AuditPage) (row : ℤ × Row) : Except Fault (ℕ × AuditPage) := do
  let sequence ← Store.toU64 row.1
  ensure (sequence = page.nextAfter + 1) "저널 순번 누락"
  let record ← Store.decode codec codec.parseRecord row.2
  ensure (record.sequence = sequence) "저널 순번 불일치"
  let (bytes, events) ← visitRecord toJson ⟨page.engineId, sequence, record.timestamp⟩ record
    (bytes, page.events)
  ensure (bytes ≤ maxBytes) "감사 페이지 크기 초과"
  pure (bytes, { page with events, nextAfter := sequence })

def readRows : List (ℤ × Row) → ℕ → AuditPage → Except Fault AuditPage
  | [], _, page => pure page
  | row :: rows, bytes, page => do
    let (bytes, page) ← readRow codec toJson bytes page row
    readRows rows bytes page

/-- The rows of a request. -/
def selectRows (store : Store) (after through : ℤ) (limit : ℕ) : List (ℤ × Row) :=
  (store.records.entries.filter fun row => after < row.1 ∧ row.1 ≤ through).take limit

/-- `AuditReader::read`. -/
def read (file : Option Database) (query : PageQuery) : Except Fault AuditPage := do
  let database ← orErr file "unable to open database file"
  let store := database.store
  ensure (database.userVersion = 4) "지원하지 않는 감사 저널 버전"
  let genesis ← Store.decode codec codec.parseGenesis
    (← orErr store.genesis "Query returned no rows")
  ensure (genesis.version = 4 ∧ codec.isUuid genesis.engineId = true) "잘못된 최초 기록"
  ensure (∀ id ∈ query.engineId, id = genesis.engineId) "조회 중 엔진 식별자가 변경됨"
  let last ← store.lastSequence
  let through := query.through.getD last
  ensure (query.after ≤ through ∧ through ≤ last) "확정 범위를 벗어난 조회"
  let rows := selectRows store (← Store.toI64 query.after) (← Store.toI64 through)
    (query.limit.getD 50)
  let page ← readRows codec toJson rows 0 ⟨genesis.engineId, through, query.after, []⟩
  ensure (page.nextAfter = through ∨ query.after < page.nextAfter) "저널 꼬리 누락"
  pure page

inductive StatusCode where
  | serviceUnavailable
  | unauthorized
  | badRequest
  | tooManyRequests
  deriving DecidableEq

/-- A request to the endpoint: the header with its key, and whether a reader is free. -/
structure Request where
  provided : Option String
  permit : Bool
  query : PageQuery

/-- The limits on a key, and its comparison by digest. -/
def tokenMatches (token : List UInt8) (provided : String) : Bool :=
  32 ≤ provided.utf8ByteSize ∧ provided.utf8ByteSize ≤ 1024 ∧ codec.digest provided = token

/-- The endpoint.  A continued request must name its cut and its engine. -/
def page (token : Option (List UInt8)) (file : Option Database) (request : Request) :
    Except StatusCode AuditPage :=
  let query := request.query
  match token, request.provided with
  | none, _ => .error .serviceUnavailable
  | some _, none => .error .unauthorized
  | some token, some provided =>
    if ¬ tokenMatches codec token provided then .error .unauthorized
    else if ¬ (1 ≤ query.limit.getD 50 ∧ query.limit.getD 50 ≤ 100) ∨
        maxI64.toNat < query.after ∨ (∃ n ∈ query.through, maxI64.toNat < n) ∨
        (0 < query.after ∧ (query.through.isNone ∨ query.engineId.isNone)) then
      .error .badRequest
    else if ¬ request.permit then .error .tooManyRequests
    else (read codec toJson file query).mapError fun _ => .serviceUnavailable

/-! ## One page -/

section Page

variable {codec toJson}

/-- The bytes of a list of texts. -/
def textSize (texts : List String) : ℕ := (texts.map String.utf8ByteSize).sum

omit toJson in
theorem textSize_append (texts texts' : List String) :
    textSize (texts ++ texts') = textSize texts + textSize texts' := by
  rw [textSize, List.map_append, List.sum_append, textSize, textSize]

theorem run_push {index bytes : ℕ} {payload : String} {events : List String} :
    EventVisit.run (push index payload) (bytes, events) =
      if maxBytes < bytes + payload.utf8ByteSize
      then (.error ⟨0, "감사 페이지 크기 초과"⟩, (bytes, events))
      else (.ok (), (bytes + payload.utf8ByteSize, events ++ [payload])) := by
  show EventVisit.run (if maxBytes < bytes + payload.utf8ByteSize then throw _ else set _) _ = _
  split <;> rfl

theorem run_push_ok {index bytes : ℕ} {payload : String} {events : List String}
    {collected : ℕ × List String}
    (h : EventVisit.run (push index payload) (bytes, events) = (.ok (), collected)) :
    collected = (bytes + payload.utf8ByteSize, events ++ [payload]) := by
  rw [run_push] at h
  split at h
  · cases h
  · exact (Prod.mk.inj h).2.symm

/-- The audit collects the texts of all events, and their bytes. -/
theorem visitAll_push_ok {values : List FinancialEvent} {index bytes : ℕ} {events : List String}
    {collected : ℕ × List String}
    (h : EventVisit.run (Output.visitAll toJson push values index) (bytes, events) =
      (.ok (), collected)) :
    ∃ payloads, values.mapM toJson = .ok payloads ∧
      collected = (bytes + textSize payloads, events ++ payloads) := by
  induction values generalizing index bytes events with
  | nil =>
    have hrun : EventVisit.run (Output.visitAll toJson push [] index) (bytes, events) =
      (.ok (), (bytes, events)) := rfl
    rw [hrun] at h
    exact ⟨[], rfl, by rw [← (Prod.mk.inj h).2]; simp [textSize]⟩
  | cons value values ih =>
    obtain ⟨payload, mid, hvalue, hpush, hrest⟩ := Output.visitAll_cons_ok.mp h
    obtain rfl := run_push_ok hpush
    obtain ⟨payloads, hpayloads, rfl⟩ := ih hrest
    refine ⟨payload :: payloads, ?_, ?_⟩
    · rw [List.mapM_cons, hvalue, hpayloads]
      rfl
    · simp [textSize, Nat.add_assoc]

theorem visitRecord_ok {engineId : String} {record : Record} {bytes : ℕ} {events : List String}
    {collected : ℕ × List String}
    (h : visitRecord toJson ⟨engineId, record.sequence, record.timestamp⟩ record (bytes, events) =
      .ok collected) :
    ∃ payloads, record.payloads toJson engineId = .ok payloads ∧
      collected = (bytes + textSize payloads, events ++ payloads) := by
  simp only [Record.payloads_eq_ok]
  unfold visitRecord at h
  unfold Record.events
  split
  · next batch hbatch =>
    simp only [hbatch, Output.visitEvents_eq] at h
    split at h
    · next hrun =>
      cases h
      exact visitAll_push_ok hrun
    · cases h
  · next hbatch =>
    split at h
    · next batch hsome => exact absurd hsome (hbatch batch)
    · obtain rfl := pure_eq_ok.mp h
      exact ⟨[], rfl, by simp [textSize]⟩

/-- **One row of a page**: the next record, with all its texts. -/
theorem readRow_ok {store : Store} {bytes bytes' : ℕ} {page page' : AuditPage} {row : ℤ × Row}
    (h : readRow codec toJson bytes page row = .ok (bytes', page'))
    (hrow : row ∈ store.records.entries) (hkey : row.1 ≤ maxI64.toNat) :
    row.1 = page.nextAfter + 1 ∧ ∃ record payloads,
      store.read codec (page.nextAfter + 1) = .ok record ∧
      record.payloads toJson page.engineId = .ok payloads ∧
      bytes' = bytes + textSize payloads ∧ bytes' ≤ maxBytes ∧
      page' = { page with events := page.events ++ payloads, nextAfter := page.nextAfter + 1 } := by
  simp only [readRow, Store.toU64, bind_eq_ok, ensure_eq_ok, pure_eq_ok, exists_const,
    Prod.mk.injEq] at h
  obtain ⟨sequence, ⟨hnonneg, rfl⟩, hnext, record, hdecode, hsequence, ⟨bytes, events⟩, hvisit,
    hbytes, rfl, rfl⟩ := h
  have hrow1 : row.1 = (page.nextAfter + 1 : ℕ) := by
    rw [← hnext, Int.toNat_of_nonneg hnonneg]
  rw [← hsequence] at hvisit
  obtain ⟨payloads, hpayloads, hcollected⟩ := visitRecord_ok hvisit
  obtain ⟨rfl, rfl⟩ := Prod.mk.inj hcollected
  refine ⟨by exact_mod_cast hrow1, record, payloads, ?_, hpayloads, rfl, hbytes, by rw [hnext]⟩
  simp only [Store.read, Store.toI64, bind_eq_ok, ensure_eq_ok, pure_eq_ok, orErr_eq_ok,
    exists_const]
  refine ⟨_, ⟨by omega, rfl⟩, row.2, ?_, record, hdecode, by omega, rfl⟩
  rw [← hrow1]
  exact SortedMap.find?_of_mem hrow

/-- **The rows of a page** are the records that follow, without a gap. -/
theorem readRows_ok {store : Store} {rows : List (ℤ × Row)} {bytes : ℕ} {page page' : AuditPage}
    (h : readRows codec toJson rows bytes page = .ok page')
    (hrows : ∀ row ∈ rows, row ∈ store.records.entries ∧ row.1 ≤ maxI64.toNat)
    (hbytes : bytes = textSize page.events) (hmax : bytes ≤ maxBytes) :
    rows.map Prod.fst = (List.range' (page.nextAfter + 1) rows.length).map Nat.cast ∧
      page'.engineId = page.engineId ∧ page'.through = page.through ∧
      page'.nextAfter = page.nextAfter + rows.length ∧ textSize page'.events ≤ maxBytes ∧
      ∃ payloads, page'.events = page.events ++ payloads ∧
        store.published codec toJson page.engineId page.nextAfter rows.length = .ok payloads := by
  induction rows generalizing bytes page with
  | nil =>
    obtain rfl := pure_eq_ok.mp h
    exact ⟨rfl, rfl, rfl, rfl, hbytes ▸ hmax, [], (List.append_nil _).symm, rfl⟩
  | cons row rows ih =>
    obtain ⟨⟨bytes', mid⟩, hrow, hrest⟩ := bind_eq_ok.mp h
    obtain ⟨hentry, hkey⟩ := hrows row (List.mem_cons_self ..)
    obtain ⟨hrow1, record, texts, hread, htexts, rfl, hle, rfl⟩ := readRow_ok hrow hentry hkey
    obtain ⟨hkeys, hengine, hthrough, hnext, hsize, payloads, hevents, hpublished⟩ :=
      ih hrest (fun row hr => hrows row (List.mem_cons_of_mem _ hr))
        (by rw [textSize_append, hbytes]) hle
    refine ⟨?_, hengine, hthrough, ?_, hsize, texts ++ payloads, ?_, ?_⟩
    · rw [List.map_cons, hkeys, List.length_cons, List.range'_succ, List.map_cons, hrow1]
      push_cast
      rfl
    · dsimp only at hnext
      rw [hnext, List.length_cons]
      omega
    · rw [hevents, List.append_assoc]
    · rw [List.length_cons]
      simp only [Store.published, bind_eq_ok, pure_eq_ok]
      exact ⟨record, hread, texts, by rw [htexts]; rfl, payloads, hpublished, rfl⟩

omit toJson in
theorem mem_selectRows {store : Store} {after through : ℤ} {limit : ℕ} {row : ℤ × Row}
    (h : row ∈ selectRows store after through limit) :
    row ∈ store.records.entries ∧ after < row.1 ∧ row.1 ≤ through := by
  have hmem := List.mem_of_mem_take h
  rw [List.mem_filter, decide_eq_true_eq] at hmem
  exact hmem

/-- Rows without a gap that stop before the limit have reached the end of the range, if
its last row is there. -/
theorem length_selectRows {store : Store} {after through limit : ℕ} (hle : after ≤ through)
    (hkeys : (selectRows store after through limit).map Prod.fst =
      (List.range' (after + 1) (selectRows store after through limit).length).map Nat.cast) :
    (selectRows store after through limit).length ≤ min limit (through - after) ∧
      ((store.records.find? through).isSome = true →
        (selectRows store after through limit).length = min limit (through - after)) := by
  generalize hrows : selectRows store after through limit = rows at hkeys
  have hmem : ∀ row ∈ rows, row.1 ≤ (through : ℤ) := fun row hr =>
    (mem_selectRows (hrows ▸ hr)).2.2
  have hlimit : rows.length ≤ limit := by
    rw [← hrows]
    exact List.length_take_le ..
  have hthrough : rows.length ≤ through - after := by
    rcases Nat.eq_zero_or_pos rows.length with hzero | hpos
    · omega
    · -- the last row has the largest sequence
      have hlast : ((after + rows.length : ℕ) : ℤ) ∈ rows.map Prod.fst := by
        rw [hkeys, List.mem_map]
        exact ⟨after + rows.length, by rw [List.mem_range'_1]; omega, rfl⟩
      obtain ⟨row, hr, heq⟩ := List.mem_map.mp hlast
      have hbound := hmem row hr
      rw [heq] at hbound
      omega
  refine ⟨le_min hlimit hthrough, fun hfind => ?_⟩
  by_contra hne
  have hshort : rows.length < limit ∧ rows.length < through - after := by
    omega
  obtain ⟨row, hfound⟩ := Option.isSome_iff_exists.mp hfind
  obtain ⟨key, hkey, he⟩ := SortedMap.exists_mem_of_find? hfound
  have hkey' : key = (through : ℤ) := hkey
  have hin : (key, row) ∈ rows := by
    have htake : rows = store.records.entries.filter fun row =>
        (after : ℤ) < row.1 ∧ row.1 ≤ (through : ℤ) := by
      rw [← hrows, selectRows]
      refine List.take_of_length_le ?_
      by_contra hlong
      have hlength : rows.length = limit := by
        rw [← hrows, selectRows, List.length_take, min_eq_left (by omega)]
      omega
    rw [htake, List.mem_filter, decide_eq_true_eq]
    exact ⟨he, by omega, by omega⟩
  have hlast := List.mem_map_of_mem (f := Prod.fst) hin
  rw [hkeys, List.mem_map] at hlast
  obtain ⟨n, hn, heq⟩ := hlast
  rw [List.mem_range'_1] at hn
  omega

/-! ### A range that is intact -/

/-- Texts that fit are all collected. -/
theorem visitAll_push_of_le {values : List FinancialEvent} {index bytes : ℕ}
    {events payloads : List String} (h : values.mapM toJson = .ok payloads)
    (hsize : bytes + textSize payloads ≤ maxBytes) :
    EventVisit.run (Output.visitAll toJson push values index) (bytes, events) =
      (.ok (), (bytes + textSize payloads, events ++ payloads)) := by
  induction values generalizing index bytes events payloads with
  | nil =>
    obtain rfl : [] = payloads := pure_eq_ok.mp h
    rw [textSize, List.map_nil, List.sum_nil, Nat.add_zero, List.append_nil]
    rfl
  | cons value values ih =>
    rw [List.mapM_cons] at h
    obtain ⟨payload, hvalue, h⟩ := bind_eq_ok.mp h
    obtain ⟨rest, hrest, h⟩ := bind_eq_ok.mp h
    obtain rfl := pure_eq_ok.mp h
    have hcons : textSize (payload :: rest) = payload.utf8ByteSize + textSize rest := by
      rw [textSize, List.map_cons, List.sum_cons, textSize]
    rw [hcons] at hsize ⊢
    have hpush : EventVisit.run (push index payload) (bytes, events) =
        (.ok (), (bytes + payload.utf8ByteSize, events ++ [payload])) := by
      rw [run_push, if_neg (by omega)]
    have hvisit := @ih (index + 1) (bytes + payload.utf8ByteSize) (events ++ [payload]) _ hrest
      (by omega)
    rw [Nat.add_assoc, List.append_assoc, List.singleton_append] at hvisit
    exact Output.visitAll_cons_ok.mpr ⟨payload, _, hvalue, hpush, hvisit⟩

theorem visitRecord_of_payloads {engineId : String} {record : Record} {bytes : ℕ}
    {events payloads : List String} (h : record.payloads toJson engineId = .ok payloads)
    (hsize : bytes + textSize payloads ≤ maxBytes) :
    visitRecord toJson ⟨engineId, record.sequence, record.timestamp⟩ record (bytes, events) =
      .ok (bytes + textSize payloads, events ++ payloads) := by
  rw [Record.payloads_eq_ok] at h
  unfold Record.events at h
  unfold visitRecord
  split
  · next batch hbatch =>
    rw [hbatch] at h
    rw [Output.visitEvents_eq, visitAll_push_of_le h hsize]
  · next hbatch =>
    have hnone : payloads = [] := by
      split at h
      · next batch hsome => exact absurd hsome (hbatch batch)
      · exact (pure_eq_ok.mp h).symm
    rw [hnone, textSize, List.map_nil, List.sum_nil, Nat.add_zero, List.append_nil]
    rfl

/-- **A row whose record can be read** extends the page. -/
theorem readRow_of_read {store : Store} {bytes : ℕ} {page : AuditPage} {row : ℤ × Row}
    {record : Record} {payloads : List String} (hrow : row ∈ store.records.entries)
    (hkey : row.1 = (page.nextAfter + 1 : ℕ))
    (hread : store.read codec (page.nextAfter + 1) = .ok record)
    (hpayloads : record.payloads toJson page.engineId = .ok payloads)
    (hsize : bytes + textSize payloads ≤ maxBytes) :
    readRow codec toJson bytes page row = .ok (bytes + textSize payloads,
      { page with events := page.events ++ payloads, nextAfter := page.nextAfter + 1 }) := by
  simp only [Store.read, Store.toI64, bind_eq_ok, ensure_eq_ok, pure_eq_ok, orErr_eq_ok,
    exists_const] at hread
  obtain ⟨_, ⟨-, rfl⟩, value, hfind, _, hdecode, hsequence, rfl⟩ := hread
  rw [← hkey, SortedMap.find?_of_mem hrow, Option.some_inj] at hfind
  have hvisit := @visitRecord_of_payloads _ _ _ bytes page.events _ hpayloads hsize
  rw [hsequence] at hvisit
  simp only [readRow, Store.toU64, bind_eq_ok, ensure_eq_ok, pure_eq_ok, exists_const]
  exact ⟨_, ⟨by omega, rfl⟩, by omega, _, hfind ▸ hdecode, by omega, _,
    by rw [show row.1.toNat = page.nextAfter + 1 by omega]; exact hvisit, hsize,
    by rw [show row.1.toNat = page.nextAfter + 1 by omega]⟩

theorem readRows_of_published {store : Store} {rows : List (ℤ × Row)} {bytes : ℕ}
    {page : AuditPage} {payloads : List String} (hrows : ∀ row ∈ rows, row ∈ store.records.entries)
    (hkeys : rows.map Prod.fst = (List.range' (page.nextAfter + 1) rows.length).map Nat.cast)
    (hpublished : store.published codec toJson page.engineId page.nextAfter rows.length =
      .ok payloads) (hsize : bytes + textSize payloads ≤ maxBytes) :
    readRows codec toJson rows bytes page = .ok { page with
      events := page.events ++ payloads, nextAfter := page.nextAfter + rows.length } := by
  induction rows generalizing bytes page payloads with
  | nil =>
    obtain rfl := pure_eq_ok.mp hpublished
    rw [List.append_nil]
    rfl
  | cons row rows ih =>
    rw [List.length_cons] at hpublished
    simp only [Store.published, bind_eq_ok, pure_eq_ok] at hpublished
    obtain ⟨record, hread, texts, htexts, rest, hrest, rfl⟩ := hpublished
    rw [List.map_cons, List.length_cons, List.range'_succ, List.map_cons, List.cons.injEq] at hkeys
    have hpayloads : record.payloads toJson page.engineId = .ok texts := by
      cases hp : record.payloads toJson page.engineId with
      | error e =>
        rw [hp] at htexts
        cases htexts
      | ok texts' =>
        rw [hp] at htexts
        exact congrArg _ (Except.ok.inj htexts)
    rw [textSize_append] at hsize
    have hrow : readRow codec toJson bytes page row = .ok (bytes + textSize texts,
        { page with events := page.events ++ texts, nextAfter := page.nextAfter + 1 }) :=
      readRow_of_read (hrows row (List.mem_cons_self ..)) hkeys.1 hread hpayloads (by omega)
    have hrest := @ih (bytes + textSize texts)
      { page with events := page.events ++ texts, nextAfter := page.nextAfter + 1 } _
      (fun row hr => hrows row (List.mem_cons_of_mem _ hr)) hkeys.2 hrest (by omega)
    dsimp only at hrest
    rw [List.append_assoc, Nat.add_right_comm, Nat.add_assoc] at hrest
    exact bind_eq_ok.mpr ⟨_, hrow, hrest⟩

omit toJson in
/-- The rows of a range, in a journal with the sequences from 1 on. -/
theorem map_fst_selectRows {store : Store} {after through last limit : ℕ}
    (hkeys : store.records.entries.map Prod.fst = (List.range' 1 last).map Nat.cast)
    (hrange : after ≤ through ∧ through ≤ last) :
    (selectRows store after through limit).map Prod.fst =
      (List.range' (after + 1) (min limit (through - after))).map Nat.cast := by
  have hsplit : List.range' 1 last = List.range' 1 after ++
      (List.range' (after + 1) (through - after) ++ List.range' (through + 1) (last - through)) := by
    have hinner := @List.range'_append_1 (after + 1) (through - after) (last - through)
    have houter := @List.range'_append_1 1 after (through - after + (last - through))
    rw [show after + 1 + (through - after) = through + 1 by omega] at hinner
    rw [show 1 + after = after + 1 by omega, ← hinner] at houter
    rw [houter, show after + (through - after + (last - through)) = last by omega]
  have hfilter : (store.records.entries.filter fun row =>
      decide ((after : ℤ) < row.1 ∧ row.1 ≤ (through : ℤ))).map Prod.fst =
        (List.range' (after + 1) (through - after)).map Nat.cast := by
    have hcomp : (fun row : ℤ × Row => decide ((after : ℤ) < row.1 ∧ row.1 ≤ (through : ℤ))) =
        (fun key : ℤ => decide ((after : ℤ) < key ∧ key ≤ (through : ℤ))) ∘ Prod.fst := rfl
    rw [hcomp, ← List.filter_map, hkeys, hsplit, List.map_append, List.map_append,
      List.filter_append, List.filter_append]
    rw [List.filter_eq_nil_iff.mpr, List.filter_eq_self.mpr, List.filter_eq_nil_iff.mpr,
      List.nil_append, List.append_nil]
    all_goals
      intro key hkey
      obtain ⟨n, hn, rfl⟩ := List.mem_map.mp hkey
      rw [List.mem_range'_1] at hn
      simp only [decide_eq_true_eq]
      omega
  rw [selectRows, List.map_take, hfilter, ← List.map_take]
  rcases Nat.le_total limit (through - after) with hle | hle
  · rw [List.take_range'_of_length_ge hle, min_eq_left hle]
  · rw [List.take_range'_of_length_le hle, min_eq_right hle]

/-- **What a returned page is**, whatever the tables hold: the texts of whole records
that follow each other from the start of the request, of the engine of the journal. -/
structure PageOf (codec : Codec Json) (toJson : FinancialEvent → Except String String)
    (database : Database) (query : PageQuery) (page : AuditPage) : Prop where
  genesis : ∃ row genesis, database.store.genesis = some row ∧
    Store.decode codec codec.parseGenesis row = .ok genesis ∧ page.engineId = genesis.engineId
  identity : ∀ id ∈ query.engineId, id = page.engineId
  cut : ∃ last, database.store.lastSequence = .ok last ∧ page.through = query.through.getD last ∧
    query.after ≤ page.through ∧ page.through ≤ last
  bounds : query.after ≤ page.nextAfter ∧ page.nextAfter ≤ page.through
  /-- A page ends at its limit or at the cut, if the record at the cut is there. -/
  full : (database.store.records.find? page.through).isSome = true →
    page.nextAfter = query.after + min (query.limit.getD 50) (page.through - query.after)
  progress : page.nextAfter = page.through ∨ query.after < page.nextAfter
  whole : database.store.published codec toJson page.engineId query.after
    (page.nextAfter - query.after) = .ok page.events
  size : textSize page.events ≤ maxBytes

/-- **A page that was returned.** -/
theorem read_ok {database : Database} {query : PageQuery} {page : AuditPage}
    (h : read codec toJson (some database) query = .ok page) :
    PageOf codec toJson database query page := by
  simp only [read, Store.toI64, bind_eq_ok, orErr_eq_ok, ensure_eq_ok, pure_eq_ok, exists_const,
    Option.some_inj] at h
  obtain ⟨_, rfl, -, row, hrow, genesis, hgenesis, -, hid, last, hlast, hcut, _, ⟨-, rfl⟩, _,
    ⟨hmax, rfl⟩, read, hrows, hprogress, rfl⟩ := h
  set through := query.through.getD last with hthrough
  have hentries : ∀ row ∈ selectRows database.store query.after through (query.limit.getD 50),
      row ∈ database.store.records.entries ∧ row.1 ≤ maxI64.toNat := by
    intro row hr
    obtain ⟨hmem, -, hle⟩ := mem_selectRows hr
    exact ⟨hmem, by omega⟩
  obtain ⟨hkeys, hengine, hread, hnext, hsize, payloads, hevents, hpublished⟩ :=
    readRows_ok hrows hentries rfl (Nat.zero_le _)
  obtain ⟨hlength, hfull⟩ := length_selectRows hcut.1 hkeys
  dsimp only at hengine hread hnext hevents hpublished
  rw [List.nil_append] at hevents
  refine ⟨⟨row, genesis, hrow, hgenesis, hengine⟩, ?_, ⟨last, hlast, hread, ?_, ?_⟩, ?_, ?_, ?_, ?_,
    hsize⟩
  · rw [hengine]
    exact hid
  · rw [hread]
    exact hcut.1
  · rw [hread]
    exact hcut.2
  · rw [hread, hnext]
    omega
  · rw [hread]
    intro hfind
    rw [hnext, hfull hfind]
  · rw [hread]
    exact hprogress
  · rw [hengine, hnext, hevents, Nat.add_sub_cancel_left]
    exact hpublished

/-- **A range that is intact is returned**: if the records of a request can be read and their texts
fit on a page, the reply is the page with them. -/
theorem read_of_published {database : Database} {query : PageQuery} {row : Row} {genesis : Genesis}
    {last through limit : ℕ} {texts : List String} (hversion : database.userVersion = 4)
    (hrow : database.store.genesis = some row)
    (hgenesis : Store.decode codec codec.parseGenesis row = .ok genesis)
    (hvalid : genesis.version = 4 ∧ codec.isUuid genesis.engineId = true)
    (hid : ∀ id ∈ query.engineId, id = genesis.engineId)
    (hkeys : database.store.records.entries.map Prod.fst = (List.range' 1 last).map Nat.cast)
    (hthrough : query.through.getD last = through)
    (hrange : query.after ≤ through ∧ through ≤ last) (hmax : last ≤ maxI64.toNat)
    (hlimit : query.limit.getD 50 = limit) (hpos : 0 < limit)
    (hpublished : database.store.published codec toJson genesis.engineId query.after
      (min limit (through - query.after)) = .ok texts) (hsize : textSize texts ≤ maxBytes) :
    read codec toJson (some database) query =
      .ok ⟨genesis.engineId, through, query.after + min limit (through - query.after), texts⟩ := by
  have hselected := @map_fst_selectRows _ _ _ _ limit hkeys hrange
  have hlength := congrArg List.length hselected
  rw [List.length_map, List.length_map, List.length_range'] at hlength
  rw [← hlength] at hselected hpublished
  have hrows := @readRows_of_published _ codec toJson database.store _ 0
    ⟨genesis.engineId, through, query.after, []⟩ _ (fun row hr => (mem_selectRows hr).1) hselected
    hpublished (by omega)
  rw [hlength] at hrows
  simp only [read, Store.toI64, bind_eq_ok, orErr_eq_ok, ensure_eq_ok, pure_eq_ok, exists_const,
    Option.some_inj]
  refine ⟨database, rfl, hversion, row, hrow, genesis, hgenesis, hvalid, hid, last,
    Store.lastSequence_of_keys hkeys, ?_, _, ⟨by omega, rfl⟩, _, ⟨by omega, rfl⟩, _, ?_, ?_, rfl⟩
  · rw [hthrough]
    exact hrange
  · rw [hthrough, hlimit]
    exact hrows
  · dsimp only
    rw [hthrough]
    omega

end Page

/-! ## Chains of pages -/

/-- A client's pages so far, on the journal as it is now: the cut and the engine of the
first page, the record it has reached, and the pages. -/
inductive Paging : Database → ℕ → String → ℕ → List AuditPage → Prop
  | first {database : Database} {cut : Option ℕ} {id : Option String} {limit : ℕ}
      {page : AuditPage} (limited : 1 ≤ limit ∧ limit ≤ 100)
      (returned : read codec toJson (some database) ⟨0, cut, id, some limit⟩ = .ok page) :
      Paging database page.through page.engineId page.nextAfter [page]
  | grow {database : Database} {store : Store} {through after : ℕ} {engineId : String}
      {pages : List AuditPage} (chain : Paging database through engineId after pages)
      (grown : Store.Grows codec database.store store) :
      Paging { database with store } through engineId after pages
  | next {database : Database} {through after limit : ℕ} {engineId : String}
      {pages : List AuditPage} {page : AuditPage}
      (chain : Paging database through engineId after pages) (limited : 1 ≤ limit ∧ limit ≤ 100)
      (returned : read codec toJson (some database)
        ⟨after, some through, some engineId, some limit⟩ = .ok page) :
      Paging database through engineId page.nextAfter (pages ++ [page])

/-- Pages from the first record to one that was reached, each with the texts of whole
records that follow those of the page before. -/
inductive WholePages (store : Store) (through : ℕ) (engineId : String) :
    List AuditPage → ℕ → Prop
  | nil : WholePages store through engineId [] 0
  | page {pages : List AuditPage} {after : ℕ} {page : AuditPage}
      (before : WholePages store through engineId pages after)
      (named : page.through = through ∧ page.engineId = engineId)
      (bounds : after ≤ page.nextAfter ∧ page.nextAfter ≤ through)
      (whole : store.published codec toJson engineId after (page.nextAfter - after) =
        .ok page.events) :
      WholePages store through engineId (pages ++ [page]) page.nextAfter

section Chain

variable {codec toJson}

theorem WholePages.of_isPrefix {store store' : Store} {through after : ℕ} {engineId : String}
    {pages : List AuditPage} (h : store.records.entries <+: store'.records.entries)
    (hpages : WholePages codec toJson store through engineId pages after) :
    WholePages codec toJson store' through engineId pages after := by
  induction hpages with
  | nil => exact .nil
  | page _ named bounds whole ih =>
    exact .page ih named bounds (Store.published_of_isPrefix h whole)

/-- **Whole pages are the published stream.** -/
theorem WholePages.published {store : Store} {through after : ℕ} {engineId : String}
    {pages : List AuditPage} (h : WholePages codec toJson store through engineId pages after) :
    store.published codec toJson engineId 0 after = .ok (pages.flatMap AuditPage.events) := by
  induction h with
  | nil => rfl
  | @page pages after page _ _ bounds whole ih =>
    have hsum : page.nextAfter = after + (page.nextAfter - after) := by
      omega
    rw [hsum, Store.published_add]
    refine ⟨_, page.events, ih, ?_, ?_⟩
    · rwa [Nat.zero_add]
    · rw [List.flatMap_append, List.flatMap_singleton]

theorem WholePages.le {store : Store} {through after : ℕ} {engineId : String}
    {pages : List AuditPage} (h : WholePages codec toJson store through engineId pages after) :
    after ≤ through := by
  cases h with
  | nil => exact Nat.zero_le _
  | page _ _ bounds _ => exact bounds.2

/-- A page of a chain. -/
theorem PageOf.next {database : Database} {through after : ℕ} {engineId : String}
    {limit : Option ℕ} {page : AuditPage}
    (h : PageOf codec toJson database ⟨after, some through, some engineId, limit⟩ page) :
    page.through = through ∧ page.engineId = engineId := by
  obtain ⟨last, -, hthrough, -⟩ := h.cut
  exact ⟨hthrough, (h.identity engineId rfl).symm⟩

/-- **A chain returns whole pages**, however the journal grows. -/
theorem Paging.wholePages {database : Database} {through after : ℕ} {engineId : String}
    {pages : List AuditPage} (h : Paging codec toJson database through engineId after pages) :
    WholePages codec toJson database.store through engineId pages after := by
  induction h with
  | first limited returned =>
    have hpage := read_ok returned
    exact .page .nil ⟨rfl, rfl⟩ hpage.bounds hpage.whole
  | grow chain grown ih => exact ih.of_isPrefix grown.keeps.1
  | next chain limited returned ih =>
    have hpage := read_ok returned
    obtain ⟨hthrough, hengine⟩ := hpage.next
    refine .page ih ⟨hthrough, hengine⟩ ?_ ?_
    · rw [← hthrough]
      exact hpage.bounds
    · rw [← hengine]
      exact hpage.whole

/-! ### The endpoint -/

variable (codec) in
/-- The requests that the endpoint passes on to the reader: the key is the configured one, the limits
are kept, a continued request names its cut and its engine, and no other request is being read. -/
structure Served (token : Option (List UInt8)) (request : Request) : Prop where
  authorized : ∃ key ∈ token, ∃ provided ∈ request.provided, tokenMatches codec key provided = true
  limited : 1 ≤ request.query.limit.getD 50 ∧ request.query.limit.getD 50 ≤ 100
  inRange : request.query.after ≤ maxI64.toNat ∧ ∀ n ∈ request.query.through, n ≤ maxI64.toNat
  continued : 0 < request.query.after →
    request.query.through.isSome = true ∧ request.query.engineId.isSome = true
  permitted : request.permit = true

/-- **The endpoint returns a page exactly if** the request is served and the reader returns it. -/
theorem page_eq_ok {token : Option (List UInt8)} {file : Option Database} {request : Request}
    {p : AuditPage} : page codec toJson token file request = .ok p ↔
      Served codec token request ∧ read codec toJson file request.query = .ok p := by
  unfold page
  dsimp only
  constructor
  · intro h
    split at h
    · cases h
    · cases h
    · next key provided hprovided =>
      split_ifs at h with hkey hquery hpermit
      rw [not_or, not_or, not_or, not_not, not_lt, not_and, not_or] at hquery
      obtain ⟨hlimit, hafter, hthrough, hcontinued⟩ := hquery
      refine ⟨⟨⟨key, rfl, provided, hprovided, hkey⟩, hlimit, ⟨hafter, ?_⟩, ?_, hpermit⟩, ?_⟩
      · exact fun n hn => not_lt.mp fun hlt => hthrough ⟨n, hn, hlt⟩
      · intro hpos
        obtain ⟨hcut, hengine⟩ := hcontinued hpos
        exact ⟨Option.isNone_eq_false_iff.mp (Bool.eq_false_of_not_eq_true hcut),
          Option.isNone_eq_false_iff.mp (Bool.eq_false_of_not_eq_true hengine)⟩
      · cases hread : read codec toJson file request.query with
        | error fault =>
          rw [hread] at h
          cases h
        | ok q =>
          rw [hread] at h
          exact congrArg _ (Except.ok.inj h)
  · rintro ⟨⟨⟨key, hkey, provided, hprovided, hmatches⟩, hlimit, ⟨hafter, hthrough⟩, hcontinued,
      hpermit⟩, hread⟩
    rw [Option.mem_def] at hkey hprovided
    have hquery : ¬ (¬ (1 ≤ request.query.limit.getD 50 ∧ request.query.limit.getD 50 ≤ 100) ∨
        maxI64.toNat < request.query.after ∨
        (∃ n ∈ request.query.through, maxI64.toNat < n) ∨
        (0 < request.query.after ∧
          (request.query.through.isNone ∨ request.query.engineId.isNone))) := by
      rintro (h | h | ⟨n, hn, h⟩ | ⟨hpos, h⟩)
      · exact h hlimit
      · exact absurd h (not_lt.mpr hafter)
      · exact absurd h (not_lt.mpr (hthrough n hn))
      · obtain ⟨hcut, hengine⟩ := hcontinued hpos
        rcases h with h | h
        · rw [Option.isNone_iff_eq_none.mp h] at hcut
          cases hcut
        · rw [Option.isNone_iff_eq_none.mp h] at hengine
          cases hengine
    simp only [hkey, hprovided, hmatches, hquery, hpermit, hread, not_true, if_false]
    rfl

/-- **A chain through the endpoint**: its first page. -/
theorem Paging.of_page {token : Option (List UInt8)} {database : Database} {request : Request}
    {p : AuditPage} (h : page codec toJson token (some database) request = .ok p)
    (hstart : request.query.after = 0) :
    Paging codec toJson database p.through p.engineId p.nextAfter [p] := by
  obtain ⟨hserved, hread⟩ := page_eq_ok.mp h
  have hfirst : read codec toJson (some database) ⟨0, request.query.through, request.query.engineId,
      some (request.query.limit.getD 50)⟩ = .ok p := by
    rw [← hread, ← hstart]
    rfl
  exact .first hserved.limited hfirst

/-- A further page of a chain through the endpoint. -/
theorem Paging.of_page_next {token : Option (List UInt8)} {database : Database} {request : Request}
    {through after : ℕ} {engineId : String} {pages : List AuditPage} {p : AuditPage}
    (chain : Paging codec toJson database through engineId after pages)
    (h : page codec toJson token (some database) request = .ok p)
    (hnext : request.query.after = after ∧ request.query.through = some through ∧
      request.query.engineId = some engineId) :
    Paging codec toJson database through engineId p.nextAfter (pages ++ [p]) := by
  obtain ⟨hserved, hread⟩ := page_eq_ok.mp h
  have hpage : read codec toJson (some database) ⟨after, some through, some engineId,
      some (request.query.limit.getD 50)⟩ = .ok p := by
    rw [← hread, ← hnext.1, ← hnext.2.1, ← hnext.2.2]
    rfl
  exact .next chain hserved.limited hpage

/-! ### Damage -/

variable (codec) in
/-- The record under a sequence is missing, or is not one that was written there. -/
def Damaged (store : Store) (sequence : ℕ) : Prop := ∀ record, store.read codec sequence ≠ .ok record

theorem damaged_of_gap {store : Store} {sequence : ℕ} (h : store.records.find? sequence = none) :
    Damaged codec store sequence := by
  intro record hread
  simp only [Store.read, Store.toI64, bind_eq_ok, ensure_eq_ok, pure_eq_ok, orErr_eq_ok,
    exists_const] at hread
  obtain ⟨_, ⟨-, rfl⟩, row, hrow, -⟩ := hread
  rw [h] at hrow
  cases hrow

theorem damaged_of_checksum {store : Store} {sequence : ℕ} {row : Row}
    (h : store.records.find? sequence = some row)
    (hchecksum : codec.digest row.payload ≠ row.checksum) : Damaged codec store sequence := by
  intro record hread
  simp only [Store.read, Store.decode, Store.toI64, bind_eq_ok, ensure_eq_ok, pure_eq_ok,
    orErr_eq_ok, exists_const] at hread
  obtain ⟨_, ⟨-, rfl⟩, row', hrow, _, ⟨hdigest, -⟩, -⟩ := hread
  rw [h, Option.some_inj] at hrow
  exact hchecksum (hrow ▸ hdigest)

/-- No page reaches over a damaged record. -/
theorem PageOf.lt_of_damaged {database : Database} {query : PageQuery} {page : AuditPage}
    (h : PageOf codec toJson database query page) {sequence : ℕ}
    (hdamaged : Damaged codec database.store sequence) (hlt : query.after < sequence) :
    page.nextAfter < sequence := by
  by_contra hle
  have hbounds := h.bounds
  obtain ⟨record, hread⟩ := Store.read_of_published h.whole hlt (by omega)
  exact hdamaged record hread

/-- The last record is there. -/
theorem find?_lastSequence {store : Store} {n : ℕ} (h : store.lastSequence = .ok n) (hpos : 0 < n) :
    (store.records.find? n).isSome = true := by
  simp only [Store.lastSequence, Store.toU64, bind_eq_ok, ensure_eq_ok, pure_eq_ok,
    exists_const] at h
  obtain ⟨hnonneg, hn⟩ := h
  cases hlast : store.records.entries.getLast? with
  | none =>
    rw [hlast] at hn
    exact absurd hn (by simp; omega)
  | some e =>
    rw [hlast, Option.map_some, Option.getD_some] at hn hnonneg
    have hkey : (n : ℤ) = e.1 := by
      omega
    rw [hkey, SortedMap.find?_of_mem (List.mem_of_getLast? hlast)]
    rfl

/-- A page that is not cut short: its cut is the last record, or one that is there. -/
theorem PageOf.length_eq {database : Database} {query : PageQuery} {page : AuditPage} {last : ℕ}
    (h : PageOf codec toJson database query page) (hlast : database.store.lastSequence = .ok last)
    (hcut : query.through = none ∨
      (database.store.records.find? (query.through.getD last)).isSome = true) :
    page.through = query.through.getD last ∧
      page.nextAfter = query.after + min (query.limit.getD 50) (page.through - query.after) := by
  obtain ⟨last', hlast', hthrough, hafter, hle⟩ := h.cut
  obtain rfl : last = last' := Except.ok.inj (hlast.symm.trans hlast')
  refine ⟨hthrough, ?_⟩
  rcases Nat.eq_zero_or_pos (page.through - query.after) with hzero | hpos
  · have hbounds := h.bounds
    rw [hzero, Nat.min_zero]
    omega
  · refine h.full ?_
    rcases hcut with hnone | hsome
    · rw [hnone, Option.getD_none] at hthrough
      rw [hthrough]
      exact find?_lastSequence hlast (by omega)
    · rwa [hthrough]

/-- A journal that was written by appends has all its records. -/
theorem find?_of_grows {base store : Store} (hempty : base.records = SortedMap.empty)
    (h : Store.Grows codec base store) :
    ∃ last, store.lastSequence = .ok last ∧ ∀ sequence : ℕ, 0 < sequence → sequence ≤ last →
      (store.records.find? sequence).isSome = true := by
  obtain ⟨n, hkeys⟩ := h.keys hempty
  refine ⟨n, Store.lastSequence_of_keys hkeys, fun sequence hpos hle => ?_⟩
  have hmem : (sequence : ℤ) ∈ store.records.entries.map Prod.fst := by
    rw [hkeys, List.mem_map]
    exact ⟨sequence, by rw [List.mem_range'_1]; omega, rfl⟩
  obtain ⟨e, he, heq⟩ := List.mem_map.mp hmem
  rw [← heq, SortedMap.find?_of_mem he]
  rfl

/-! ### The result -/

variable (codec toJson) in
/-- What a chain of pages has returned, and what the requests that continue it return. -/
structure ChainComplete (database : Database) (through : ℕ) (engineId : String) (after : ℕ)
    (pages : List AuditPage) : Prop where
  /-- No page passes the cut. -/
  bounded : after ≤ through
  whole : WholePages codec toJson database.store through engineId pages after
  /-- The texts so far are those a visit produces for the records so far, byte for byte. -/
  published : database.store.published codec toJson engineId 0 after =
    .ok (pages.flatMap AuditPage.events)
  /-- Every further page before the cut makes progress. -/
  progress : ∀ limit page, 1 ≤ limit → limit ≤ 100 → after < through →
    read codec toJson (some database) ⟨after, some through, some engineId, some limit⟩ = .ok page →
      after < page.nextAfter ∧ page.nextAfter ≤ through
  /-- A record that is missing or damaged was not passed. -/
  intact : ∀ sequence, 0 < sequence → Damaged codec database.store sequence → after < sequence
  /-- And a request for it fails. -/
  stopped : after < through → Damaged codec database.store (after + 1) → ∀ limit page,
    read codec toJson (some database) ⟨after, some through, some engineId, limit⟩ ≠ .ok page

variable (codec toJson) in
/-- What makes a single request fail.  The last record of the range has to be there for the last two,
as it is when the request leaves the cut open and in every journal that was written by appends. -/
structure Refused (database : Database) (query : PageQuery) (last : ℕ) (genesis : Genesis) :
    Prop where
  /-- It names another engine. -/
  foreign : ∀ id ∈ query.engineId, id ≠ genesis.engineId →
    ∀ page, read codec toJson (some database) query ≠ .ok page
  /-- A record in its range is missing or damaged. -/
  damaged : query.through = none ∨
      (database.store.records.find? (query.through.getD last)).isSome = true →
    ∀ sequence, query.after < sequence → sequence ≤ query.after + query.limit.getD 50 →
      sequence ≤ query.through.getD last → Damaged codec database.store sequence →
      ∀ page, read codec toJson (some database) query ≠ .ok page
  /-- The texts of its range have more than four megabytes. -/
  oversized : query.through = none ∨
      (database.store.records.find? (query.through.getD last)).isSome = true →
    ∀ texts, database.store.published codec toJson genesis.engineId query.after
        (min (query.limit.getD 50) (query.through.getD last - query.after)) = .ok texts →
      maxBytes < textSize texts →
      ∀ page, read codec toJson (some database) query ≠ .ok page

variable (codec toJson) in
/-- The parts of the result. -/
structure PagingComplete : Prop where
  /-- However the journal grows between the pages of a chain, and whatever limits its requests
  have. -/
  chains : ∀ database through engineId after pages,
    Paging codec toJson database through engineId after pages →
      ChainComplete codec toJson database through engineId after pages
  requests : ∀ database query last row genesis, database.store.lastSequence = .ok last →
    database.store.genesis = some row → Store.decode codec codec.parseGenesis row = .ok genesis →
      Refused codec toJson database query last genesis
  /-- What damage is. -/
  missing : ∀ (store : Store) (sequence : ℕ), store.records.find? sequence = none →
    Damaged codec store sequence
  altered : ∀ (store : Store) (sequence : ℕ) row, store.records.find? sequence = some row →
    codec.digest row.payload ≠ row.checksum → Damaged codec store sequence
  /-- A journal that was written by appends has all its records. -/
  appended : ∀ base store : Store, base.records = SortedMap.empty → Store.Grows codec base store →
    ∃ last, store.lastSequence = .ok last ∧ ∀ sequence : ℕ, 0 < sequence → sequence ≤ last →
      (store.records.find? sequence).isSome = true

theorem Paging.complete {database : Database} {through after : ℕ} {engineId : String}
    {pages : List AuditPage} (h : Paging codec toJson database through engineId after pages) :
    ChainComplete codec toJson database through engineId after pages := by
  have hpages := h.wholePages
  refine ⟨hpages.le, hpages, hpages.published, ?_, ?_, ?_⟩
  · intro limit page _ _ hlt hread
    have hpage := read_ok hread
    have hthrough := hpage.next.1
    have hbounds := hpage.bounds
    have hprogress := hpage.progress
    dsimp only at hbounds hprogress
    omega
  · intro sequence hpos hdamaged
    by_contra hle
    obtain ⟨record, hread⟩ := Store.read_of_published hpages.published hpos (by omega)
    exact hdamaged record hread
  · intro hlt hdamaged limit page hread
    have hpage := read_ok hread
    have hthrough := hpage.next.1
    have hend := hpage.lt_of_damaged hdamaged (Nat.lt_succ_self after)
    have hprogress := hpage.progress
    dsimp only at hprogress
    omega

/-- A page is of the engine of the journal. -/
theorem PageOf.engineId_eq {database : Database} {query : PageQuery} {page : AuditPage} {row : Row}
    {genesis : Genesis} (h : PageOf codec toJson database query page)
    (hrow : database.store.genesis = some row)
    (hgenesis : Store.decode codec codec.parseGenesis row = .ok genesis) :
    page.engineId = genesis.engineId := by
  obtain ⟨row', genesis', hrow', hgenesis', hengine⟩ := h.genesis
  obtain rfl := Option.some.inj (hrow.symm.trans hrow')
  obtain rfl := Except.ok.inj (hgenesis.symm.trans hgenesis')
  exact hengine

theorem refused {database : Database} {query : PageQuery} {last : ℕ} {row : Row}
    {genesis : Genesis} (hlast : database.store.lastSequence = .ok last)
    (hrow : database.store.genesis = some row)
    (hgenesis : Store.decode codec codec.parseGenesis row = .ok genesis) :
    Refused codec toJson database query last genesis := by
  constructor
  · intro id hid hne page hread
    have hpage := read_ok hread
    exact hne ((hpage.identity id hid).trans (hpage.engineId_eq hrow hgenesis))
  · intro hcut sequence hlt hlimit hthrough hdamaged page hread
    have hpage := read_ok hread
    obtain ⟨hcutEq, hlength⟩ := hpage.length_eq hlast hcut
    have hend := hpage.lt_of_damaged hdamaged hlt
    omega
  · intro hcut texts htexts hsize page hread
    have hpage := read_ok hread
    obtain ⟨hcutEq, hlength⟩ := hpage.length_eq hlast hcut
    have hwhole := hpage.whole
    rw [hlength, Nat.add_sub_cancel_left, hcutEq, hpage.engineId_eq hrow hgenesis, htexts,
      Except.ok.injEq] at hwhole
    have hle := hpage.size
    rw [← hwhole] at hle
    omega

/-- **Paging through the journal is complete, and equals the published stream.** -/
theorem paging_complete (codec : Codec Json) (toJson : FinancialEvent → Except String String) :
    PagingComplete codec toJson where
  chains _ _ _ _ _ h := h.complete
  requests _ _ _ _ _ hlast hrow hgenesis := refused hlast hrow hgenesis
  missing _ _ := damaged_of_gap
  altered _ _ _ := damaged_of_checksum
  appended _ _ hempty hgrown := find?_of_grows hempty hgrown

end Chain

/-! ### Two pages of a journal -/

/-- The pages of that journal, with one record each. -/
def samplePages : List AuditPage :=
  [⟨Store.sampleGenesis.engineId, 2, 1, [Output.sampleEventText]⟩,
    ⟨Store.sampleGenesis.engineId, 2, 2, []⟩]

theorem read_record {record : Record} (h : record ∈ [Output.sampleCredited, Output.sampleRepeated]) :
    Output.sampleJournal.read Output.sampleCodec record.sequence = .ok record :=
  Store.read_of_mem (Output.entries_sampleJournal.1 ▸ List.mem_map_of_mem h)
    ((by decide : ∀ record ∈ [Output.sampleCredited, Output.sampleRepeated],
      record.sequence ≤ maxI64.toNat) record h)
    (Store.legible_tableCodec (by decide +kernel : Store.Distinct Output.sampleRows) h rfl)

/-- The first record has one event and the second none. -/
theorem published_sampleJournal :
    Output.sampleJournal.published Output.sampleCodec Output.sampleJson Store.sampleGenesis.engineId
        0 1 = .ok [Output.sampleEventText] ∧
      Output.sampleJournal.published Output.sampleCodec Output.sampleJson
        Store.sampleGenesis.engineId 1 1 = .ok [] := by
  have hfirst : Output.sampleJournal.read Output.sampleCodec 1 = .ok Output.sampleCredited :=
    @read_record Output.sampleCredited List.mem_cons_self
  have hsecond : Output.sampleJournal.read Output.sampleCodec 2 = .ok Output.sampleRepeated :=
    @read_record Output.sampleRepeated (List.mem_cons_of_mem _ List.mem_cons_self)
  have hpayloads : Output.sampleCredited.payloads Output.sampleJson Store.sampleGenesis.engineId =
      .ok [Output.sampleEventText] := by
    rw [Record.payloads_eq_ok,
      show Output.sampleCredited.events Store.sampleGenesis.engineId = [Output.sampleEvent] from rfl,
      List.mapM_cons, Output.sampleJson_event]
    rfl
  simp only [Store.published, bind_eq_ok, pure_eq_ok]
  exact ⟨⟨_, hfirst, _, by rw [hpayloads]; rfl, _, rfl, rfl⟩, _, hsecond, [], rfl, _, rfl, rfl⟩

/-- The pages of two requests for one record each. -/
theorem read_sampleJournal :
    read Output.sampleCodec Output.sampleJson (some ⟨4, Output.sampleJournal⟩)
        ⟨0, none, none, some 1⟩ =
      .ok ⟨Store.sampleGenesis.engineId, 2, 1, [Output.sampleEventText]⟩ ∧
    read Output.sampleCodec Output.sampleJson (some ⟨4, Output.sampleJournal⟩)
        ⟨1, some 2, some Store.sampleGenesis.engineId, some 1⟩ =
      .ok ⟨Store.sampleGenesis.engineId, 2, 2, []⟩ := by
  obtain ⟨hfirst, hsecond⟩ := published_sampleJournal
  have hrow : Output.sampleJournal.genesis = some ⟨Store.sampleGenesisText,
      Output.sampleCodec.digest Store.sampleGenesisText⟩ := Output.entries_sampleJournal.2
  have hgenesis : Store.decode Output.sampleCodec Output.sampleCodec.parseGenesis
      ⟨Store.sampleGenesisText, Output.sampleCodec.digest Store.sampleGenesisText⟩ =
        .ok Store.sampleGenesis :=
    Store.decode_of_digest
      (by simp only [Output.sampleCodec, Store.tableCodec, Store.sampleCodec, ↓reduceIte])
  have hvalid : Store.sampleGenesis.version = 4 ∧
      Output.sampleCodec.isUuid Store.sampleGenesis.engineId = true := by decide
  have hkeys : Output.sampleJournal.records.entries.map Prod.fst =
      (List.range' 1 2).map Nat.cast := by
    rw [Output.entries_sampleJournal.1]
    rfl
  exact ⟨read_of_published rfl hrow hgenesis hvalid (fun _ hid => absurd hid (by simp)) hkeys rfl
      (by decide) (by decide) rfl one_pos hfirst (by decide +kernel),
    read_of_published rfl hrow hgenesis hvalid (fun _ hid => (Option.some.inj hid).symm) hkeys rfl
      (by decide) (by decide) rfl one_pos hsecond (by decide)⟩

theorem paging_complete_deposit :
    Paging Output.sampleCodec Output.sampleJson ⟨4, Output.sampleJournal⟩ 2
        Store.sampleGenesis.engineId 2 samplePages ∧
      Output.sampleJournal.published Output.sampleCodec Output.sampleJson
        Store.sampleGenesis.engineId 0 2 = .ok [Output.sampleEventText] := by
  obtain ⟨hfirst, hsecond⟩ := read_sampleJournal
  have hchain := Paging.next (.first ⟨le_rfl, by decide⟩ hfirst) ⟨le_rfl, by decide⟩ hsecond
  exact ⟨hchain,
    ((paging_complete Output.sampleCodec Output.sampleJson).chains _ _ _ _ _ hchain).published⟩

end Audit

end CexEngine
