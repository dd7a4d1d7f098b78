import Pain.Base.UuidText
import Pain.Lib.PrefixRange
import Pain.Manusya.Bank

/-!
# Listing the chunks

`Bank::list_chunk` walks the map from the lower bound of an identifier and calls
back for at most `limit` entries. The service adds what it is called back with
to a `ListChunkResponse`, and leaves the other fields of the response alone.

A response ought to say in `has_more` whether entries are left, so that a client
can ask for page after page. This file states what makes a page complete, and
proves for which requests the pages of the service are.
-/

namespace Pain.Manusya

/-- `ListChunkRequest`. -/
structure ListChunkRequest where
  start : UUID
  limit : UInt32
deriving DecidableEq

/-- `ListChunkResponse`, which a handler gets with its fields at their defaults. -/
structure ListChunkResponse where
  header : Header := ⟨0, ""⟩
  hasMore : Bool := false
  chunkIds : List UUID := []
deriving DecidableEq

namespace World

variable {σ H : Type}

/-- `_chunks.lower_bound(start)`: the identifiers from the iterator on. -/
def lowerBound (text : UUID.Text) (start : UUID) (world : World σ H) : List UUID :=
  (world.chunkIds text).dropWhile fun uuid => (text.compare uuid start).isLT

/-- The loop of `Bank::list_chunk`, with a callback that does not throw. -/
def listLoop {Output : Type} (limit : UInt32) (cb : Output → UUID → Output) :
    UInt32 → List UUID → Output → Output
  | _, [], output => output
  | i, uuid :: it, output =>
      if i < limit then listLoop limit cb (i + 1) it (cb output uuid) else output

/-- `Bank::list_chunk`, with what the callback writes to. -/
def listChunkTo {Output : Type} (text : UUID.Text) (start : UUID) (limit : UInt32)
    (cb : Output → UUID → Output) (world : World σ H) (output : Output) : Output :=
  listLoop limit cb 0 (world.lowerBound text start) output

/-- The identifiers of the bank that are not below `start`, in their order. -/
def chunksFrom (text : UUID.Text) (start : UUID) (world : World σ H) : List UUID :=
  (world.chunkIds text).filter fun uuid => !(text.compare uuid start).isLT

end World

namespace ManusyaServiceImpl

variable {σ H : Type}

/-- `ManusyaServiceImpl::ListChunk`. -/
def listChunk (text : UUID.Text) (request : ListChunkRequest) (world : World σ H)
    (response : ListChunkResponse) : ListChunkResponse :=
  world.listChunkTo text request.start request.limit
    (fun response uuid => { response with chunkIds := response.chunkIds ++ [uuid] }) response

end ManusyaServiceImpl

namespace World

variable {σ H : Type} {text : UUID.Text} {world : World σ H} {start : UUID} {limit : UInt32}

theorem listLoop_eq {Output : Type} (cb : Output → UUID → Output) {i : UInt32} (inside : i ≤ limit)
    (it : List UUID) (output : Output) :
    listLoop limit cb i it output = (it.take (limit.toNat - i.toNat)).foldl cb output := by
  induction it generalizing i output with
  | nil => simp [listLoop]
  | cons uuid it ih =>
      by_cases more : i < limit
      · have below : i.toNat < limit.toNat := UInt32.lt_iff_toNat_lt.mp more
        have bounded := limit.toNat_lt
        have counted : (i + 1).toNat = i.toNat + 1 := by
          rw [UInt32.toNat_add, UInt32.toNat_one]
          omega
        have next : i + 1 ≤ limit := by
          rw [UInt32.le_iff_toNat_le, counted]
          omega
        have left : limit.toNat - i.toNat = limit.toNat - (i.toNat + 1) + 1 := by omega
        simp only [listLoop, more, if_true, ih next, counted, left, List.take_succ_cons,
          List.foldl_cons]
      · have last : i.toNat = limit.toNat := by
          have reached := UInt32.le_iff_toNat_le.mp inside
          have notBelow := mt UInt32.lt_iff_toNat_lt.mpr more
          omega
        simp [listLoop, more, last]

theorem listChunkTo_eq_foldl {Output : Type} (cb : Output → UUID → Output) (output : Output) :
    world.listChunkTo text start limit cb output =
      (world.listChunk text start limit).foldl cb output := by
  have fromZero : (0 : UInt32) ≤ limit := by simp [UInt32.le_iff_toNat_le]
  simp [listChunkTo, listLoop_eq cb fromZero, lowerBound, listChunk]

theorem chunkIds_sorted (text : UUID.Text) (world : World σ H) :
    (world.chunkIds text).Pairwise fun first second => text.compare first second = .lt :=
  text.sort_pairwise Std.ExtTreeMap.nodup_keys

theorem chunksFrom_sorted (text : UUID.Text) (start : UUID) (world : World σ H) :
    (world.chunksFrom text start).Pairwise fun first second =>
      text.compare first second = .lt :=
  (world.chunkIds_sorted text).filter _

theorem chunksFrom_nodup (text : UUID.Text) (start : UUID) (world : World σ H) :
    (world.chunksFrom text start).Nodup := by
  apply (world.chunksFrom_sorted text start).imp
  rintro first second ordered rfl
  have same : text.compare first first = .eq := Std.ReflCmp.compare_self
  rw [same] at ordered
  cases ordered

theorem mem_chunksFrom {uuid : UUID} :
    uuid ∈ world.chunksFrom text start ↔ uuid ∈ world.bank ∧ text.compare uuid start ≠ .lt := by
  simp [chunksFrom, chunkIds, UUID.Order.mem_sort, Ordering.isGE_iff_ne_lt]

theorem listChunk_eq_take : world.listChunk text start limit =
    (world.chunksFrom text start).take limit.toNat := by
  rw [listChunk, chunksFrom, Lib.dropWhile_eq_filter]
  apply (world.chunkIds_sorted text).imp
  intro first second ordered lower
  simp only [Ordering.isLT_iff_eq_lt] at lower ⊢
  exact Std.TransCmp.lt_trans ordered lower

end World

namespace ManusyaServiceImpl

variable {σ H : Type} {text : UUID.Text} {world : World σ H} {request : ListChunkRequest}

theorem foldl_chunkIds (uuids : List UUID) (response : ListChunkResponse) :
    uuids.foldl (fun response uuid =>
        ({ response with chunkIds := response.chunkIds ++ [uuid] } : ListChunkResponse)) response =
      { response with chunkIds := response.chunkIds ++ uuids } := by
  induction uuids generalizing response with
  | nil => simp
  | cons uuid uuids ih => simp [ih]

theorem listChunk_eq (request : ListChunkRequest) (world : World σ H)
    (response : ListChunkResponse) :
    listChunk text request world response =
      { response with
        chunkIds := response.chunkIds ++
          (world.chunksFrom text request.start).take request.limit.toNat } := by
  rw [listChunk, World.listChunkTo_eq_foldl, foldl_chunkIds, World.listChunk_eq_take]

/-- The response to a request. -/
def page (text : UUID.Text) (world : World σ H) (request : ListChunkRequest) :
    ListChunkResponse :=
  listChunk text request world {}

@[simp]
theorem page_chunkIds (text : UUID.Text) (world : World σ H) (request : ListChunkRequest) :
    (page text world request).chunkIds =
      (world.chunksFrom text request.start).take request.limit.toNat := by
  simp [page, listChunk_eq]

@[simp]
theorem page_hasMore (text : UUID.Text) (world : World σ H) (request : ListChunkRequest) :
    (page text world request).hasMore = false := by
  simp [page, listChunk_eq]

end ManusyaServiceImpl

/-- A client that asks for page after page until `has_more` is false, with `next` for the request
that follows a page: the identifiers that it has seen. `none` is a client that is still asking. -/
def pageThrough (serve : ListChunkRequest → ListChunkResponse)
    (next : ListChunkRequest → ListChunkResponse → ListChunkRequest) :
    ℕ → ListChunkRequest → Option (List UUID)
  | 0, _ => none
  | turns + 1, request =>
      let response := serve request
      if response.hasMore then
        (pageThrough serve next turns (next request response)).map (response.chunkIds ++ ·)
      else some response.chunkIds

/-- The next request skips nothing that is above the identifiers of the page. -/
def Resumes (text : UUID.Text)
    (next : ListChunkRequest → ListChunkResponse → ListChunkRequest) : Prop :=
  ∀ request response uuid, text.compare uuid request.start ≠ .lt →
    (∀ listed ∈ response.chunkIds, text.compare listed uuid = .lt) →
      text.compare uuid (next request response).start ≠ .lt

/-- What a page of `uuids`, the chunks from the start of the request on, says. -/
structure IsPage (text : UUID.Text) (uuids : List UUID) (request : ListChunkRequest)
    (response : ListChunkResponse) : Prop where
  listed : response.chunkIds = uuids.take (min request.limit.toNat uuids.length)
  increasing : response.chunkIds.Pairwise fun first second => text.compare first second = .lt
  distinct : response.chunkIds.Nodup
  more : response.hasMore = true ↔ ∃ uuid ∈ uuids, uuid ∉ response.chunkIds

/-- The requests that the client makes. -/
inductive Asked (serve : ListChunkRequest → ListChunkResponse)
    (next : ListChunkRequest → ListChunkResponse → ListChunkRequest) (request : ListChunkRequest) :
    ListChunkRequest → Prop where
  | first : Asked serve next request request
  | later {asked : ListChunkRequest} (earlier : Asked serve next request asked)
      (more : (serve asked).hasMore = true) : Asked serve next request (next asked (serve asked))

section Client

variable {σ H : Type} {text : UUID.Text} {world : World σ H}
  {serve : ListChunkRequest → ListChunkResponse}
  {next : ListChunkRequest → ListChunkResponse → ListChunkRequest} {request : ListChunkRequest}

theorem Asked.of_next {asked : ListChunkRequest} (more : (serve request).hasMore = true)
    (asks : Asked serve next (next request (serve request)) asked) :
    Asked serve next request asked := by
  induction asks with
  | first => exact .later .first more
  | later earlier moreThere ih => exact .later ih moreThere

theorem IsPage.lt_of_notMem {response : ListChunkResponse} {uuid : UUID}
    (isPage : IsPage text (world.chunksFrom text request.start) request response)
    (member : uuid ∈ world.chunksFrom text request.start) (unlisted : uuid ∉ response.chunkIds) :
    ∀ listed ∈ response.chunkIds, text.compare listed uuid = .lt := by
  intro listed listedMem
  rw [isPage.listed] at listedMem unlisted
  have sorted := world.chunksFrom_sorted text request.start
  have parts := List.take_append_drop
    (min request.limit.toNat (world.chunksFrom text request.start).length)
    (world.chunksFrom text request.start)
  rw [← parts] at sorted member
  rcases List.mem_append.mp member with here | later
  · exact absurd here unlisted
  · exact (List.pairwise_append.mp sorted).2.2 listed listedMem uuid later

/-- If every page that a client asks for is complete, then the client has seen every chunk when it
stops asking. -/
theorem mem_of_pageThrough (resumes : Resumes text next)
    (pages : ∀ asked, Asked serve next request asked →
      IsPage text (world.chunksFrom text asked.start) asked (serve asked))
    {turns : ℕ} {seen : List UUID} (paged : pageThrough serve next turns request = some seen)
    {uuid : UUID} (member : uuid ∈ world.chunksFrom text request.start) : uuid ∈ seen := by
  induction turns generalizing request seen with
  | zero => simp [pageThrough] at paged
  | succ turns ih =>
      have isPage := pages request .first
      by_cases listed : uuid ∈ (serve request).chunkIds
      · simp only [pageThrough] at paged
        split at paged
        · simp only [Option.map_eq_some_iff] at paged
          rcases paged with ⟨rest, -, rfl⟩
          exact List.mem_append_left rest listed
        · simp only [Option.some.injEq] at paged
          exact paged ▸ listed
      · have more := isPage.more.mpr ⟨uuid, member, listed⟩
        simp only [pageThrough, more, if_true, Option.map_eq_some_iff] at paged
        rcases paged with ⟨rest, pagedRest, rfl⟩
        rcases World.mem_chunksFrom.mp member with ⟨inBank, notBelow⟩
        have ahead := resumes request (serve request) uuid notBelow
          (isPage.lt_of_notMem member listed)
        have later := ih (fun asked asks => pages asked (asks.of_next more)) pagedRest
          (World.mem_chunksFrom.mpr ⟨inBank, ahead⟩)
        exact List.mem_append_right _ later

end Client

namespace ManusyaServiceImpl

variable {σ H : Type} {text : UUID.Text} {world : World σ H} {request : ListChunkRequest}

/-- The page for a request is complete, and a client that starts to page there sees every chunk
from the start of the request on. -/
structure PagesComplete (text : UUID.Text) (world : World σ H) (request : ListChunkRequest) :
    Prop where
  isPage : IsPage text (world.chunksFrom text request.start) request (page text world request)
  seen : ∀ next, Resumes text next → ∀ turns seen,
    pageThrough (page text world) next turns request = some seen →
      ∀ uuid ∈ world.chunksFrom text request.start, uuid ∈ seen

theorem asked_eq {next : ListChunkRequest → ListChunkResponse → ListChunkRequest}
    {asked : ListChunkRequest} (asks : Asked (page text world) next request asked) :
    asked = request := by
  cases asks with
  | first => rfl
  | later earlier more => simp at more

theorem unlisted_iff : (∃ uuid ∈ world.chunksFrom text request.start,
      uuid ∉ (page text world request).chunkIds) ↔
    request.limit.toNat < (world.chunksFrom text request.start).length := by
  constructor
  · rintro ⟨uuid, member, unlisted⟩
    apply Nat.lt_of_not_le
    intro fits
    rw [page_chunkIds, List.take_of_length_le fits] at unlisted
    exact unlisted member
  · intro cut
    refine ⟨(world.chunksFrom text request.start)[request.limit.toNat], List.getElem_mem cut, ?_⟩
    rw [page_chunkIds, List.mem_take_iff_getElem]
    rintro ⟨position, inside, same⟩
    have equal := (world.chunksFrom_nodup text request.start).getElem_inj_iff.mp same
    omega

/-- The identifiers that a page lists are right for every request. -/
theorem page_lists (text : UUID.Text) (world : World σ H) (request : ListChunkRequest) :
    (page text world request).chunkIds = (world.chunksFrom text request.start).take
        (min request.limit.toNat (world.chunksFrom text request.start).length) ∧
      ((page text world request).chunkIds.Pairwise fun first second =>
        text.compare first second = .lt) ∧
      (page text world request).chunkIds.Nodup := by
  have sublist := List.take_sublist request.limit.toNat (world.chunksFrom text request.start)
  rw [← List.take_eq_take_min, page_chunkIds]
  exact ⟨rfl, (world.chunksFrom_sorted text request.start).sublist sublist,
    (world.chunksFrom_nodup text request.start).sublist sublist⟩

theorem isPage_iff :
    IsPage text (world.chunksFrom text request.start) request (page text world request) ↔
      (world.chunksFrom text request.start).length ≤ request.limit.toNat := by
  constructor
  · intro isPage
    apply Nat.le_of_not_lt
    intro cut
    have more := isPage.more.mpr (unlisted_iff.mpr cut)
    simp at more
  · intro fits
    have nothingLeft := mt unlisted_iff.mp (Nat.not_lt.mpr fits)
    rcases page_lists text world request with ⟨listed, increasing, distinct⟩
    refine ⟨listed, increasing, distinct, ?_⟩
    rw [page_hasMore]
    exact iff_of_false Bool.false_ne_true nothingLeft

/-- `has_more` is never set, so a page is complete exactly if it is the last one. -/
theorem pagesComplete_iff (text : UUID.Text) (world : World σ H) (request : ListChunkRequest) :
    PagesComplete text world request ↔
      (world.chunksFrom text request.start).length ≤ request.limit.toNat := by
  constructor
  · intro complete
    exact isPage_iff.mp complete.isPage
  · intro fits
    refine ⟨isPage_iff.mpr fits, ?_⟩
    intro next resumes turns seen paged uuid member
    refine mem_of_pageThrough resumes ?_ paged member
    intro asked asks
    exact asked_eq asks ▸ isPage_iff.mpr fits

/-- A bank of two chunks. -/
def twoChunks : World Unit Unit where
  store := ()
  chunks := []
  bank := (∅ : Map UUID ℕ).insert ⟨0, 1⟩ 0 |>.insert ⟨0, 2⟩ 1

/-- With a limit of one the second chunk is left out, and `has_more` is `false`. -/
theorem pagesComplete_fails : ¬PagesComplete .canonical twoChunks ⟨⟨0, 0⟩, 1⟩ := by
  intro complete
  have both : (twoChunks.chunksFrom .canonical ⟨0, 0⟩).length = 2 := by decide
  have fits := isPage_iff.mp complete.isPage
  simp [both] at fits

end ManusyaServiceImpl

end Pain.Manusya
