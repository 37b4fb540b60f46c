import WardenProtocol.Act.Accounts
import WardenProtocol.Act.Terms
import WardenProtocol.Foundation.Paging
import WardenProtocol.Warden.Queries

namespace WardenProtocol.Act
open Repo Foundation Foundation.Paging Std
open Warden (PageRequest)
set_option autoImplicit true

/-- The number of the status in its enumeration. -/
def ActionStatus.number : ActionStatus → Int32
  | .unspecified => 0
  | .pending => 1
  | .completed => 2
  | .revoked => 3
  | .timeout => 4

structure QueryActionsByAddressRequest where
  pagination : Option PageRequest
  address : GoString
  /-- Any number can be sent as a status. -/
  status : Int32

namespace QueryActionsByAddress

/-- The key of the next page, and the number of entries that were counted. -/
structure PageResponse where
  nextKey : Option GoString
  total : Nat

end QueryActionsByAddress

open QueryActionsByAddress

structure QueryActionsByAddressResponse (M R : Type) where
  pagination : Option PageResponse
  actions : List (Action M R)

/-- An entry of the index by address. -/
abbrev IndexEntry := (AccAddress × Nat) × Nat

/-- The pagination of the index, over the entries of an address, each of which is handed to a
function. -/
abbrev CollectionPaginate (M R : Type) := ExtTreeMap (AccAddress × Nat) Nat pairOrder → AccAddress →
  Option PageRequest → (AccAddress × Nat → Nat → Except Fault (Action M R)) →
  Except Fault (List (Action M R) × Option PageResponse)

section
variable {M R : Type}

/-- The action passes the filter of the request. -/
def QueryActionsByAddressRequest.Keeps (req : QueryActionsByAddressRequest) (action : Action M R) :
    Bool :=
  !(req.status != 0 && action.status.number != req.status)

def ActionsByAddress (paginate : CollectionPaginate M R) (b : Bech32) (s : ActState M R) :
    Option QueryActionsByAddressRequest → Except Fault (QueryActionsByAddressResponse M R)
  | none => .error (.error (str "rpc error: code = InvalidArgument desc = invalid request"))
  | some req =>
    match b.AccAddressFromBech32 req.address with
    | none => .error (.error (str "rpc error: code = InvalidArgument desc = invalid address"))
    | some addr => do
      let (actions, pageRes) ← paginate s.actionByAddress addr req.pagination fun _ value =>
        s.actions.Get value
      .ok ⟨pageRes, actions.filter req.Keeps⟩

end

/-- The number of entries of a page: one hundred when the request leaves it open. -/
def pageSize (limit : UInt64) : Nat := if limit = 0 then 100 else limit.toNat

/-- The entries are counted when this is asked for, or the size of the page is left open. -/
def countsTotal (limit : UInt64) (countTotal : Bool) : Bool := countTotal || limit = 0

/-- The entries of the index that the address has, in their order. -/
def entriesOf (index : ExtTreeMap (AccAddress × Nat) Nat pairOrder) (addr : AccAddress) :
    List IndexEntry :=
  index.toList.filter fun e => e.1.1 = addr

/-- What a page request shows of a list of entries. -/
abbrev PageOf := List IndexEntry → PageRequest → List IndexEntry × PageResponse

/-- A pagination hands the entries of a page to the function, one after the other. The pages list
the entries, as many as the limit on each, and have a key exactly if more entries follow. The total
counts the entries. -/
structure Paginates (paginate : CollectionPaginate M R) (page : PageOf) : Prop where
  eq : ∀ index addr req f, paginate index addr (some req) f = do
    let results ← (page (entriesOf index addr) req).1.mapM fun e => f e.1 e.2
    .ok (results, some (page (entriesOf index addr) req).2)
  lists : ∀ entries limit countTotal, ∃ rest, Lists (fun _ => true) entries (pageSize limit)
    Prod.fst (fun p => p.2.nextKey)
    (fun key => page entries ⟨key, 0, limit, countTotal, false⟩) rest
  total : ∀ entries limit countTotal, countsTotal limit countTotal →
    (page entries ⟨none, 0, limit, countTotal, false⟩).2.total = entries.length

variable {W O M R E : Type} {k : Keeper W O M R E} {s : Store W O M R E}

/-- The actions that mention an account, in the order of the index. -/
def Store.mentioning (s : Store W O M R E) (a : AccAddress) : List (Action M R) :=
  (entriesOf s.chain.act.actionByAddress a).filterMap fun e => s.action? e.2

theorem mem_entriesOf {index : ExtTreeMap (AccAddress × Nat) Nat pairOrder} {a : AccAddress}
    {e : IndexEntry} : e ∈ entriesOf index a ↔ e.1.1 = a ∧ index[e.1]? = some e.2 := by
  rw [entriesOf, List.mem_filter, decide_eq_true_iff, and_comm]
  apply and_congr Iff.rfl
  exact ExtTreeMap.mem_toList_iff_getElem?_eq_some

theorem Store.Filed.entry_isSome (hs : s.Filed k) :
    ∀ e ∈ entriesOf s.chain.act.actionByAddress a, (s.action? e.2).isSome := by
  intro e he
  obtain ⟨heq, act, hget, -⟩ := (hs.index e.1.1 e.1.2 e.2).1 (mem_entriesOf.1 he).2
  rw [heq, hget]
  rfl

theorem Store.Filed.mentioning_ordered (hs : s.Filed k) (ha : s.Accounted k) (a : AccAddress) :
    (s.mentioning a).Pairwise fun x y => x.id < y.id := by
  have hentries : (entriesOf s.chain.act.actionByAddress a).Pairwise fun x y => x.2 < y.2 := by
    have hordered := (ExtTreeMap.ordered_keys_toList (t := s.chain.act.actionByAddress)).filter
      fun e => decide (e.1.1 = a)
    apply hordered.imp_of_mem
    intro x y hx hy hlt
    obtain ⟨hx', hindex⟩ := mem_entriesOf.1 hx
    obtain ⟨hy', hindex'⟩ := mem_entriesOf.1 hy
    rw [pairOrder, compareLex, compareOn, compareOn, hx', hy', compare_self] at hlt
    rw [((hs.index _ _ _).1 hindex).1, ((hs.index _ _ _).1 hindex').1]
    exact Nat.compare_eq_lt.1 hlt
  apply hentries.filterMap
  intro x y hlt act hact act' hact'
  rw [ha.ids _ act hact, ha.ids _ act' hact']
  exact hlt

theorem Store.Filed.mem_mentioning (hs : s.Filed k) (ha : s.Accounted k) {act : Action M R} :
    act ∈ s.mentioning a ↔ s.action? act.id = some act ∧
      ∃ mention ∈ act.mentions, k.bech32.AccAddressFromBech32 mention = some a := by
  rw [Store.mentioning, List.mem_filterMap]
  constructor
  · rintro ⟨e, he, hget⟩
    obtain ⟨haddr, hindex⟩ := mem_entriesOf.1 he
    obtain ⟨heq, act', hget', hmention⟩ := (hs.index e.1.1 e.1.2 e.2).1 hindex
    rw [heq, hget'] at hget
    cases hget
    rw [ha.ids _ act hget', ← haddr]
    exact ⟨hget', hmention⟩
  · rintro ⟨hget, hmention⟩
    have hindex := (hs.index a act.id act.id).2 ⟨rfl, act, hget, hmention⟩
    exact ⟨((a, act.id), act.id), mem_entriesOf.2 ⟨rfl, hindex⟩, hget⟩

theorem mapM_Get {entries : List IndexEntry} {actions : SeqCollection (Action M R)}
    (h : ∀ e ∈ entries, (actions.map[e.2]?).isSome) :
    entries.mapM (fun e => actions.Get e.2) =
      .ok (entries.filterMap fun e => actions.map[e.2]?) := by
  induction entries with
  | nil => rfl
  | cons e entries ih =>
    obtain ⟨act, hact⟩ := Option.isSome_iff_exists.1 (h e List.mem_cons_self)
    have hcons : (e :: entries).filterMap (fun e => actions.map[e.2]?) =
        act :: entries.filterMap fun e => actions.map[e.2]? := List.filterMap_cons_some hact
    rw [List.mapM_cons, SeqCollection.Get_eq_ok.2 hact, ok_bind,
      ih fun e' he' => h e' (List.mem_cons_of_mem _ he'), hcons]
    rfl

def QueryActionsByAddressResponse.nextKey (p : QueryActionsByAddressResponse M R) :
    Option GoString :=
  p.pagination.bind PageResponse.nextKey

/-- The query lists the actions that mention an account and pass a filter: its pages, followed from
the first, show each of them once, in the order of the index, a page with less than `size` actions
is the last one, and a total counts the actions listed. -/
structure ListsActions (k : Keeper W O M R E) (s : Store W O M R E) (a : AccAddress)
    (keeps : Action M R → Bool) (size : Nat) (counts : Bool)
    (ask : Option GoString → QueryActionsByAddressResponse M R → Prop) : Prop where
  ends : ∃ pages, Follows ask QueryActionsByAddressResponse.nextKey none pages
  ordered : ∀ pages, Follows ask QueryActionsByAddressResponse.nextKey none pages →
    (pages.flatMap fun p => p.actions).Pairwise fun x y => x.id < y.id
  complete : ∀ pages, Follows ask QueryActionsByAddressResponse.nextKey none pages →
    ∀ act, act ∈ pages.flatMap (fun p => p.actions) ↔ s.action? act.id = some act ∧
      (∃ mention ∈ act.mentions, k.bech32.AccAddressFromBech32 mention = some a) ∧
      keeps act = true
  short : ∀ pages, Follows ask QueryActionsByAddressResponse.nextKey none pages →
    ∀ p ∈ pages, p.actions.length < size → p.nextKey = none
  total : counts → ∀ pages p, Follows ask QueryActionsByAddressResponse.nextKey none pages →
    ask none p → p.pagination.map PageResponse.total =
      some (pages.flatMap fun p => p.actions).length

/-- The request for the page at a key. -/
def pageRequest (address : GoString) (status : Int32) (limit : UInt64) (countTotal : Bool)
    (key : Option GoString) : QueryActionsByAddressRequest :=
  ⟨some ⟨key, 0, limit, countTotal, false⟩, address, status⟩

theorem pageSize_pos (limit : UInt64) : 0 < pageSize limit := by
  rw [pageSize]
  split
  · decide
  · rename_i h
    apply Nat.pos_of_ne_zero
    intro hzero
    exact h (UInt64.toNat_inj.1 hzero)

/-- The response of the query at a page of the index. -/
def Store.response (s : Store W O M R E) (keeps : Action M R → Bool)
    (p : List IndexEntry × PageResponse) : QueryActionsByAddressResponse M R :=
  ⟨some p.2, (p.1.filterMap fun e => s.action? e.2).filter keeps⟩

/-- A page of the query is a page of the actions that mention the account, filtered. -/
theorem ActionsByAddress_eq_ok {paginate : CollectionPaginate M R} {page : PageOf}
    (hpage : Paginates paginate page) (hs : s.Filed k)
    (haddr : k.bech32.AccAddressFromBech32 address = some a) (status : Int32) (limit : UInt64)
    (countTotal : Bool) (key : Option GoString) (response : QueryActionsByAddressResponse M R) :
    ActionsByAddress paginate k.bech32 s.chain.act
        (some (pageRequest address status limit countTotal key)) = .ok response ↔
      response = s.response (fun act => status = 0 || act.status.number = status)
        (page (entriesOf s.chain.act.actionByAddress a) ⟨key, 0, limit, countTotal, false⟩) := by
  obtain ⟨rest, hlists⟩ := hpage.lists (entriesOf s.chain.act.actionByAddress a) limit countTotal
  have hshown := hlists.shown_subset key
  have hget := mapM_Get fun e he => hs.entry_isSome e (hshown he)
  have hkeeps : (pageRequest address status limit countTotal key).Keeps =
      fun act : Action M R => status = 0 || act.status.number = status := by
    funext act
    rw [Bool.eq_iff_iff]
    simp [QueryActionsByAddressRequest.Keeps, pageRequest]
  simp only [ActionsByAddress, hkeeps]
  simp only [pageRequest, haddr, hpage.eq, hget, ok_bind, Except.ok.injEq]
  exact eq_comm

/-- In a reachable state: the query lists the actions of an account that have the status exactly if
no action of another status stands before the last page, and there is none at all when the total is
asked for. -/
theorem ActionsByAddress_lists_iff {paginate : CollectionPaginate M R} {page : PageOf}
    (hpage : Paginates paginate page) (k : Keeper W O M R E) (app : W) (rest : O)
    (txs : List (Keeper.Tx M)) (haddr : k.bech32.AccAddressFromBech32 address = some a)
    (status : Int32) (limit : UInt64) (countTotal : Bool) :
    let s := k.run txs (Keeper.genesis app rest)
    let keeps (act : Action M R) : Bool := status = 0 || act.status.number = status
    ListsActions k s a keeps (pageSize limit) (countsTotal limit countTotal)
        (fun key response => ActionsByAddress paginate k.bech32 s.chain.act
          (some (pageRequest address status limit countTotal key)) = .ok response) ↔
      (∀ act ∈ beforeLast (pageSize limit) (s.mentioning a), keeps act = true) ∧
      (countsTotal limit countTotal → ∀ act ∈ s.mentioning a, keeps act = true) := by
  intro s keeps
  have hs : s.Filed k := k.run_filed app rest txs
  have ha : s.Accounted k := k.run_accounted app rest txs
  have hask := ActionsByAddress_eq_ok hpage hs haddr status limit countTotal
  obtain ⟨left, hlists⟩ := hpage.lists (entriesOf s.chain.act.actionByAddress a) limit countTotal
  have hactions := hlists.filterMap hs.entry_isSome
  have hsize := pageSize_pos limit
  have hstart : left none = entriesOf s.chain.act.actionByAddress a := hlists.start
  have hfollows (pages : List (QueryActionsByAddressResponse M R)) :
      Follows (fun key response => ActionsByAddress paginate k.bech32 s.chain.act
          (some (pageRequest address status limit countTotal key)) = .ok response)
        QueryActionsByAddressResponse.nextKey none pages ↔ _ :=
    follows_map_iff hask fun p => rfl
  have hlisted {ps : List (List IndexEntry × PageResponse)}
      (hps : Follows (fun key p => p = page (entriesOf s.chain.act.actionByAddress a)
        ⟨key, 0, limit, countTotal, false⟩) (fun p => p.2.nextKey) none ps) :
      (ps.map (s.response keeps)).flatMap (fun p => p.actions) =
        (s.mentioning a).filter keeps := by
    have hflat := hactions.flatMap_pages hps
    rw [List.filter_true, hstart] at hflat
    rw [List.flatMap_map, Store.mentioning, ← hflat, List.filter_flatMap]
    rfl
  have hshort {ps : List (List IndexEntry × PageResponse)}
      (hps : Follows (fun key p => p = page (entriesOf s.chain.act.actionByAddress a)
        ⟨key, 0, limit, countTotal, false⟩) (fun p => p.2.nextKey) none ps) :
      (∀ p ∈ ps.map (s.response keeps), p.actions.length < pageSize limit → p.nextKey = none) ↔
        ∀ act ∈ beforeLast (pageSize limit) (s.mentioning a), keeps act = true := by
    have hshort := hactions.short_iff hsize keeps hps
    rw [hstart] at hshort
    rw [List.forall_mem_map]
    exact hshort
  have htotal {p : QueryActionsByAddressResponse M R}
      (hcounts : countsTotal limit countTotal) (hp : p = s.response keeps
        (page (entriesOf s.chain.act.actionByAddress a) ⟨none, 0, limit, countTotal, false⟩)) :
      p.pagination.map PageResponse.total = some (s.mentioning a).length := by
    rw [hp, Store.response, Option.map_some, hpage.total _ _ _ hcounts, Store.mentioning,
      List.filterMap_length_eq_length.2 hs.entry_isSome]
  obtain ⟨ps, hps⟩ := hactions.exists_pages hsize none
  constructor
  · intro h
    have hpages := (hfollows (ps.map (s.response keeps))).2 ⟨ps, hps, rfl⟩
    constructor
    · exact (hshort hps).1 (h.short _ hpages)
    · intro hcounts
      have hcount := h.total hcounts _ _ hpages ((hask none _).2 rfl)
      rw [htotal hcounts rfl, hlisted hps, Option.some.injEq] at hcount
      exact List.length_filter_eq_length_iff.1 hcount.symm
  · rintro ⟨hfirst, hall⟩
    constructor
    · exact ⟨_, (hfollows _).2 ⟨ps, hps, rfl⟩⟩
    · intro pages hpages
      obtain ⟨ps, hps, rfl⟩ := (hfollows pages).1 hpages
      rw [hlisted hps]
      exact (hs.mentioning_ordered ha a).filter keeps
    · intro pages hpages act
      obtain ⟨ps, hps, rfl⟩ := (hfollows pages).1 hpages
      rw [hlisted hps, List.mem_filter, hs.mem_mentioning ha, and_assoc]
    · intro pages hpages
      obtain ⟨ps, hps, rfl⟩ := (hfollows pages).1 hpages
      exact (hshort hps).2 hfirst
    · intro hcounts pages p hpages hp
      obtain ⟨ps, hps, rfl⟩ := (hfollows pages).1 hpages
      rw [hlisted hps, List.filter_eq_self.2 (hall hcounts)]
      exact htotal hcounts ((hask none p).1 hp)

namespace Local
open Tally

/-- The bytes of an identifier of 64 bits, the most significant first. -/
def idKey (id : Nat) : GoString :=
  if id < 2 ^ 64 then
    [UInt8.ofNat (id / 2 ^ 56), UInt8.ofNat (id / 2 ^ 48), UInt8.ofNat (id / 2 ^ 40),
      UInt8.ofNat (id / 2 ^ 32), UInt8.ofNat (id / 2 ^ 24), UInt8.ofNat (id / 2 ^ 16),
      UInt8.ofNat (id / 2 ^ 8), UInt8.ofNat id]
  else List.replicate id 0

def idOfKey (key : GoString) : Nat :=
  if key.length = 8 then key.foldl (fun n b => n * 256 + b.toNat) 0 else key.length

theorem idOfKey_idKey (id : Nat) : idOfKey (idKey id) = id := by
  rw [idKey]
  split
  · have hbyte (k : Nat) : id / 2 ^ (k + 8) * 256 + id / 2 ^ k % 2 ^ 8 = id / 2 ^ k := by
      rw [Nat.pow_add, ← Nat.div_div_eq_div_mul]
      exact Nat.div_add_mod' _ 256
    have hlast := hbyte 0
    have hfirst : id / 2 ^ 56 % 2 ^ 8 = id / 2 ^ 56 := by omega
    rw [Nat.pow_zero, Nat.div_one, Nat.zero_add] at hlast
    change List.foldl (fun n (b : UInt8) => n * 256 + b.toNat) 0 _ = id
    simp only [List.foldl_cons, List.foldl_nil, UInt8.toNat_ofNat']
    rw [Nat.zero_mul, Nat.zero_add, hfirst, hbyte 48, hbyte 40, hbyte 32, hbyte 24, hbyte 16,
      hbyte 8, hlast]
  · rw [idOfKey, List.length_replicate, if_neg (by omega)]

/-- The key of a place in an index whose identifiers are one, two and so on. -/
def placeKey (n : Nat) : GoString := idKey (n + 1)

def placeOfKey (key : GoString) : Nat := idOfKey key - 1

theorem placeOfKey_placeKey (n : Nat) : placeOfKey (placeKey n) = n := by
  rw [placeOfKey, placeKey, idOfKey_idKey]
  rfl

def page : PageOf := fun entries req =>
  let (shown, nextKey) := pageAt placeKey placeOfKey (fun _ => true) entries (pageSize req.limit)
    req.key
  (shown, ⟨nextKey,
    if req.key.isNone && countsTotal req.limit req.countTotal then entries.length else 0⟩)

def paginate : CollectionPaginate M R := fun index addr req f => do
  let req := req.getD ⟨none, 0, 0, false, false⟩
  let results ← (page (entriesOf index addr) req).1.mapM fun e => f e.1 e.2
  .ok (results, some (page (entriesOf index addr) req).2)

theorem paginates : Paginates (paginate : CollectionPaginate M R) page := by
  constructor
  · intro index addr req f
    rfl
  · intro entries limit countTotal
    have hlists := lists_pageAt placeKey placeOfKey placeOfKey_placeKey (fun _ => true) entries
      (pageSize limit)
    exact ⟨_, hlists.start, hlists.suffix, hlists.step⟩
  · intro entries limit countTotal hcounts
    simp [page, hcounts]

/-- An action that is completed, and one that is pending. -/
def actions : Store Nat Unit Unit Nat Empty :=
  (tally (anyOf (str "2") [alice, bob])).run [create 1 0, approve bob, create 3 0]
    (Keeper.genesis 0 ())

end Local

open Tally in
theorem ActionsByAddress_lists_iff_actions :
    let keeps (act : Action Unit Nat) : Bool := (1 : Int32) = 0 || act.status.number = 1
    ∃ a, localBech32.AccAddressFromBech32 alice = some a ∧
      (ListsActions (tally (anyOf (str "2") [alice, bob])) Local.actions a keeps (pageSize 100)
          (countsTotal 100 true) (fun key response => ActionsByAddress Local.paginate localBech32
            Local.actions.chain.act (some (pageRequest alice 1 100 true key)) = .ok response) ↔
        (∀ act ∈ beforeLast (pageSize 100) (Local.actions.mentioning a), keeps act = true) ∧
        (countsTotal 100 true → ∀ act ∈ Local.actions.mentioning a, keeps act = true)) :=
  ⟨_, rfl, ActionsByAddress_lists_iff Local.paginates (tally (anyOf (str "2") [alice, bob])) 0 () _
    rfl 1 100 true⟩

open Tally in
/-- The first page for the pending action, with one entry on each page, is that of the completed
one: it shows no action, and has a key. -/
theorem ActionsByAddress_short :
    let keeps (act : Action Unit Nat) : Bool := (1 : Int32) = 0 || act.status.number = 1
    ∃ a, localBech32.AccAddressFromBech32 alice = some a ∧
      ¬ ListsActions (tally (anyOf (str "2") [alice, bob])) Local.actions a keeps (pageSize 1)
          (countsTotal 1 false) (fun key response => ActionsByAddress Local.paginate localBech32
            Local.actions.chain.act (some (pageRequest alice 1 1 false key)) = .ok response) := by
  intro keeps
  refine ⟨_, rfl, ?_⟩
  intro h
  have hfirst : ActionsByAddress Local.paginate localBech32 Local.actions.chain.act
      (some (pageRequest alice 1 1 false none)) =
        .ok ⟨some ⟨some [0, 0, 0, 0, 0, 0, 0, 2], 0⟩, []⟩ := rfl
  obtain ⟨pages, hpages⟩ := h.ends
  have hshort := h.short pages hpages
  cases hpages with
  | last hask hnext =>
    rw [hfirst] at hask
    cases hask
    cases hnext
  | next hask hnext =>
    rw [hfirst] at hask
    cases hask
    cases hshort _ List.mem_cons_self Nat.zero_lt_one

end WardenProtocol.Act
