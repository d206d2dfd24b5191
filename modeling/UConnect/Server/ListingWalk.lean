/-
  Server/ListingWalk.lean --- reading the listing page by page.

  A page is read from a cursor on and names the next one.  Between two pages the
  registry goes on: topics are made, hidden and dropped, also the one the cursor
  names.  A cursor is the number of a making, so the pages of a walk are
  consecutive stretches of the numbers, and what stays listed all the while is
  in one of them.
-/
import UConnect.Server.Listing

set_option autoImplicit false

namespace UConnect.Server

open UConnect UConnect.Foundation UConnect.Crypto

namespace Registry

/-! ## One page

What a page returns is the listed topics from its cursor on, up to its limit,
and the cursor it names is behind all of them. -/

/-- The listing in order, from a cursor on. -/
def listingFrom (r : Registry) (cursor : Nat) : List (Σ _ : Nat, TopicId) :=
  (r.listing.entries.mergeSort fun a b => a.1 ≤ b.1).dropWhile fun e => e.1 < cursor

section Page

variable {r : Registry} {b : Board}

/-- What is dropped from an increasing list are the entries below. -/
theorem mem_dropWhile_of_increasing {l : List (Σ _ : Nat, TopicId)} {c : Nat}
    (h : l.Pairwise (·.1 < ·.1)) (e : Σ _ : Nat, TopicId) :
    e ∈ l.dropWhile (fun e => e.1 < c) ↔ e ∈ l ∧ c ≤ e.1 := by
  induction l with
  | nil => simp
  | cons a l ih =>
      obtain ⟨habove, hrest⟩ := List.pairwise_cons.mp h
      rw [List.dropWhile_cons, List.mem_cons]
      split
      · rename_i hlow
        rw [ih hrest]
        constructor
        · rintro ⟨hmem, hle⟩
          exact ⟨Or.inr hmem, hle⟩
        · rintro ⟨rfl | hmem, hle⟩
          · exact absurd (of_decide_eq_true hlow) (Nat.not_lt.mpr hle)
          · exact ⟨hmem, hle⟩
      · rename_i hhigh
        have hge : c ≤ a.1 := Nat.not_lt.mp fun hlt => hhigh (decide_eq_true hlt)
        rw [List.mem_cons]
        refine ⟨fun hmem => ⟨hmem, ?_⟩, fun hmem => hmem.1⟩
        rcases hmem with rfl | hmem
        · exact hge
        · exact Nat.le_trans hge (Nat.le_of_lt (habove e hmem))

/-- A page goes over the listing by ascending numbers. -/
theorem increasing_listing (r : Registry) :
    (r.listing.entries.mergeSort fun a b => a.1 ≤ b.1).Pairwise (·.1 < ·.1) := by
  have hsorted : (r.listing.entries.mergeSort fun a b => a.1 ≤ b.1).Pairwise
      fun a b => decide (a.1 ≤ b.1) = true := by
    refine List.pairwise_mergeSort ?_ ?_ _
    · intro a b c hab hbc
      exact decide_eq_true (Nat.le_trans (of_decide_eq_true hab) (of_decide_eq_true hbc))
    · intro a b
      simpa using Nat.le_total a.1 b.1
  have hnodup : (r.listing.entries.mergeSort fun a b => a.1 ≤ b.1).Pairwise
      fun a b => a.1 ≠ b.1 := by
    have hkeys : ((r.listing.entries.mergeSort fun a b => a.1 ≤ b.1).map Sigma.fst).Nodup :=
      ((List.mergeSort_perm _ _).map _).nodup_iff.mpr r.listing.nodupKeys
    exact List.pairwise_map.mp hkeys
  refine (hsorted.and hnodup).imp ?_
  rintro a b ⟨hle, hne⟩
  exact Nat.lt_of_le_of_ne (of_decide_eq_true hle) hne

theorem increasing_listingFrom (r : Registry) (cursor : Nat) :
    (r.listingFrom cursor).Pairwise (·.1 < ·.1) :=
  (increasing_listing r).sublist (List.dropWhile_sublist _)

/-- What is left to list from a cursor on: the listed topics from that number
on. -/
theorem mem_listingFrom (r : Registry) (cursor : Nat) (e : Σ _ : Nat, TopicId) :
    e ∈ r.listingFrom cursor ↔ r.listing.lookup e.1 = some e.2 ∧ cursor ≤ e.1 := by
  unfold listingFrom
  rw [mem_dropWhile_of_increasing (increasing_listing r), (List.mergeSort_perm _ _).mem_iff]
  exact and_congr_left' AList.mem_lookup_iff.symm

/-- Where the listing holds live and listed topics only, a page takes them as
they come. -/
theorem listFrom_eq {l : List (Σ _ : Nat, TopicId)}
    (h : ∀ e ∈ l, ∃ s, r.topics.lookup e.2 = some s ∧ s.listed = true) (limit : Nat) :
    (r.listFrom limit l).1.map (·.id) = (l.take limit).map (·.2) ∧
      (∀ x ∈ (r.listFrom limit l).1, ∃ s, r.topics.lookup x.id = some s ∧ x.mode = s.mode) ∧
      (r.listFrom limit l).2 = ((l.drop limit).head?.map (·.1)).getD 0 := by
  induction l generalizing limit with
  | nil =>
      unfold listFrom
      simp
  | cons e l ih =>
      obtain ⟨s, hs, hl⟩ := h e List.mem_cons_self
      cases limit with
      | zero =>
          unfold listFrom
          simp
      | succ limit =>
          obtain ⟨hids, hmodes, hnext⟩ := ih (fun e' he' => h e' (List.mem_cons_of_mem _ he')) limit
          unfold listFrom
          simp only [hs, hl, if_true, List.map_cons, List.take_succ_cons, List.drop_succ_cons]
          refine ⟨?_, ?_, hnext⟩
          · rw [hids]
          · intro x hx
            rcases List.mem_cons.mp hx with rfl | hx
            · exact ⟨s, hs, rfl⟩
            · exact hmodes x hx

/-- Expiring changes no topic's place. -/
theorem Shelved.expireFresh (h : r.Shelved b) (now : Instant) : (r.expireFresh now).Shelved b := by
  unfold Registry.expireFresh
  generalize List.takeWhile _ _ = l
  induction l generalizing r with
  | nil => exact h
  | cons e l ih =>
      rw [List.foldl_cons]
      exact ih (h.congr (fun t => map_shelf_modifyAt_fresh _ _ _ _) rfl rfl)

theorem topics_expireFresh (r : Registry) (now : Instant) (t : TopicId) :
    ((r.expireFresh now).topics.lookup t).map shelf = (r.topics.lookup t).map shelf := by
  unfold Registry.expireFresh
  generalize List.takeWhile _ _ = l
  induction l generalizing r with
  | nil => rfl
  | cons e l ih =>
      rw [List.foldl_cons, ih]
      exact map_shelf_modifyAt_fresh _ _ _ _

/-- What a page is of the board it was read from. -/
structure PageOf (r : Registry) (b : Board) (cursor : Nat) (topics : List TopicSummary)
    (next : Nat) : Prop where
  /-- Every topic on it is alive and listed, and its mode is the one it was made
  with. -/
  standing : ∀ x ∈ topics, x.id ∈ r.topics ∧
    b.standing x.id = some (b.number x.id, x.mode, true)
  increasing : topics.Pairwise (b.number ·.id < b.number ·.id)
  low : ∀ x ∈ topics, cursor ≤ b.number x.id
  high : next ≠ 0 → ∀ x ∈ topics, b.number x.id < next
  /-- No listed topic between the two cursors is left out. -/
  complete : ∀ t s, r.topics.lookup t = some s → s.listed = true → cursor ≤ b.number t →
    (next ≠ 0 → b.number t < next) → ∃ x ∈ topics, x.id = t
  nonempty : next ≠ 0 → topics ≠ []

/-- The cursor behind the first `limit` entries. -/
def nextCursor (l : List (Σ _ : Nat, TopicId)) (limit : Nat) : Nat :=
  ((l.drop limit).head?.map (·.1)).getD 0

/-- The entries of a page are below the cursor it names. -/
theorem lt_nextCursor {l : List (Σ _ : Nat, TopicId)} {limit : Nat}
    (hincr : l.Pairwise (·.1 < ·.1)) (hmore : nextCursor l limit ≠ 0) {e : Σ _ : Nat, TopicId}
    (he : e ∈ l.take limit) : e.1 < nextCursor l limit := by
  rw [← List.take_append_drop limit l] at hincr
  have hsplit := (List.pairwise_append.mp hincr).2.2 e he
  unfold nextCursor at hmore ⊢
  cases hdrop : l.drop limit with
  | nil =>
      rw [hdrop] at hmore
      exact absurd rfl hmore
  | cons e' rest =>
      refine hsplit e' ?_
      rw [hdrop]
      exact List.mem_cons_self

/-- What is left for later pages is not below it. -/
theorem mem_take_of_lt_nextCursor {l : List (Σ _ : Nat, TopicId)} {limit : Nat}
    (hincr : l.Pairwise (·.1 < ·.1)) (hpos : ∀ e ∈ l, 0 < e.1) {e : Σ _ : Nat, TopicId}
    (he : e ∈ l) (hbelow : nextCursor l limit ≠ 0 → e.1 < nextCursor l limit) :
    e ∈ l.take limit := by
  rw [← List.take_append_drop limit l, List.mem_append] at he
  refine he.resolve_right fun hlater => ?_
  unfold nextCursor at hbelow
  cases hdrop : l.drop limit with
  | nil =>
      rw [hdrop] at hlater
      cases hlater
  | cons e' rest =>
      have hfirst := hpos e' (List.mem_of_mem_drop (hdrop ▸ List.mem_cons_self))
      have hpair : (e' :: rest).Pairwise (·.1 < ·.1) :=
        hdrop ▸ hincr.sublist (List.drop_sublist _ _)
      rw [hdrop] at hbelow hlater
      simp only [List.head?_cons, Option.map_some, Option.getD_some] at hbelow
      have hlow := hbelow (Nat.ne_of_gt hfirst)
      rcases List.mem_cons.mp hlater with rfl | hrest
      · exact absurd hlow (Nat.lt_irrefl _)
      · exact absurd hlow (Nat.lt_asymm ((List.pairwise_cons.mp hpair).1 _ hrest))

/-- An entry of the listing is the number of a live, listed topic. -/
theorem Shelved.entry (h : r.Shelved b) (hwf : b.Wf) (hlt : b.count < 2 ^ 32) {cursor : Nat}
    {e : Σ _ : Nat, TopicId} (he : e ∈ r.listingFrom cursor) :
    ∃ s, r.topics.lookup e.2 = some s ∧ s.listed = true ∧
      b.standing e.2 = some (b.number e.2, s.mode, true) ∧ b.number e.2 = e.1 ∧ 0 < e.1 := by
  obtain ⟨hlook, -⟩ := (mem_listingFrom r cursor e).mp he
  obtain ⟨s, hs, ho, hl⟩ := (h.listing hlt e.1 e.2).mp hlook
  have hstand := h.standing hwf hlt hs
  have hnum : b.number e.2 = e.1 := (Board.number_eq hstand).trans ho
  refine ⟨s, hs, hl, ?_, hnum, ho ▸ (hwf.bounds _ _ hstand).1⟩
  rw [hstand, shelf, hnum, ho, hl]

/-- The number of a live, listed topic from the cursor on is an entry. -/
theorem Shelved.mem_listingFrom (h : r.Shelved b) (hwf : b.Wf) (hlt : b.count < 2 ^ 32)
    {cursor : Nat} {t : TopicId} {s : TopicState} (hs : r.topics.lookup t = some s)
    (hl : s.listed = true) (hge : cursor ≤ b.number t) :
    (⟨b.number t, t⟩ : Σ _ : Nat, TopicId) ∈ r.listingFrom cursor := by
  have hnum : b.number t = s.order := Board.number_eq (h.standing hwf hlt hs)
  refine (Registry.mem_listingFrom r cursor _).mpr ⟨?_, hge⟩
  exact (h.listing hlt _ _).mpr ⟨s, hs, hnum.symm, hl⟩

/-- A page says nothing of the registry but what is on the shelf. -/
theorem PageOf.congr {r' : Registry} {cursor next : Nat} {topics : List TopicSummary}
    (h : PageOf r' b cursor topics next)
    (hsame : ∀ t, (r'.topics.lookup t).map shelf = (r.topics.lookup t).map shelf) :
    PageOf r b cursor topics next where
  standing x hx := by
    obtain ⟨hlive, hstand⟩ := h.standing x hx
    have hsome := AList.lookup_isSome.mpr hlive
    rw [← Option.isSome_map (f := shelf), hsame, Option.isSome_map] at hsome
    exact ⟨AList.lookup_isSome.mp hsome, hstand⟩
  increasing := h.increasing
  low := h.low
  high := h.high
  complete t s hs hl hge hbelow := by
    have hmap := hsame t
    rw [hs, Option.map_some] at hmap
    obtain ⟨s', hs', hsh⟩ := Option.map_eq_some_iff.mp hmap
    simp only [shelf, Prod.mk.injEq] at hsh
    exact h.complete t s' hs' (hsh.2.2.trans hl) hge hbelow
  nonempty := h.nonempty

/-- The topics of a page, with their numbers, are a stretch of the listing. -/
theorem Shelved.pageOf_listFrom (h : r.Shelved b) (hwf : b.Wf) (hlt : b.count < 2 ^ 32)
    (cursor : Nat) {limit : Nat} (hlimit : limit ≠ 0) :
    PageOf r b cursor (r.listFrom limit (r.listingFrom cursor)).1
      (r.listFrom limit (r.listingFrom cursor)).2 := by
  have hentry := fun e (he : e ∈ r.listingFrom cursor) => h.entry hwf hlt he
  obtain ⟨hids, hmodes, hnext⟩ := listFrom_eq
    (fun e he => (hentry e he).imp fun s hs => ⟨hs.1, hs.2.1⟩) limit
  change _ = nextCursor _ _ at hnext
  have hincr := increasing_listingFrom r cursor
  have htake : ∀ e ∈ (r.listingFrom cursor).take limit, e ∈ r.listingFrom cursor :=
    fun e he => List.mem_of_mem_take he
  generalize (r.listFrom limit (r.listingFrom cursor)).1 = topics at hids hmodes
  rw [hnext]
  have hfound : ∀ x ∈ topics, ∃ e ∈ (r.listingFrom cursor).take limit,
      e.2 = x.id ∧ b.number x.id = e.1 := by
    intro x hx
    have hin : x.id ∈ ((r.listingFrom cursor).take limit).map (·.2) :=
      hids ▸ List.mem_map_of_mem hx
    obtain ⟨e, he, hid⟩ := List.mem_map.mp hin
    obtain ⟨s, -, -, -, hnum, -⟩ := hentry e (htake e he)
    exact ⟨e, he, hid, hid ▸ hnum⟩
  have hnumbers : topics.map (b.number ·.id) =
      ((r.listingFrom cursor).take limit).map (·.1) := by
    have hmap := congrArg (List.map b.number) hids
    rw [List.map_map, List.map_map] at hmap
    refine hmap.trans (List.map_congr_left fun e he => ?_)
    obtain ⟨s, -, -, -, hnum, -⟩ := hentry e (htake e he)
    exact hnum
  refine ⟨fun x hx => ?_, ?_, fun x hx => ?_, fun hmore x hx => ?_,
    fun t s hs hl hge hbelow => ?_, ?_⟩
  · obtain ⟨e, he, hid, -⟩ := hfound x hx
    obtain ⟨s, hs, -, hstand, -⟩ := hentry e (htake e he)
    obtain ⟨s', hs', hmode⟩ := hmodes x hx
    rw [hid] at hs hstand
    cases hs.symm.trans hs'
    exact ⟨AList.lookup_isSome.mp (hs ▸ rfl), hmode ▸ hstand⟩
  · have hpair : (topics.map (b.number ·.id)).Pairwise (· < ·) := by
      rw [hnumbers]
      exact List.pairwise_map.mpr (hincr.sublist (List.take_sublist _ _))
    exact List.pairwise_map.mp hpair
  · obtain ⟨e, he, -, hnum⟩ := hfound x hx
    rw [hnum]
    exact ((Registry.mem_listingFrom r cursor e).mp (htake e he)).2
  · obtain ⟨e, he, -, hnum⟩ := hfound x hx
    rw [hnum]
    exact lt_nextCursor hincr hmore he
  · have hpos : ∀ e ∈ r.listingFrom cursor, 0 < e.1 := by
      intro e he
      obtain ⟨s, -, -, -, -, hpos⟩ := hentry e he
      exact hpos
    have hin := mem_take_of_lt_nextCursor hincr hpos (h.mem_listingFrom hwf hlt hs hl hge) hbelow
    have hid : t ∈ topics.map (·.id) := by
      rw [hids]
      exact List.mem_map.mpr ⟨_, hin, rfl⟩
    exact List.mem_map.mp hid
  · rintro hmore rfl
    have hnil : (r.listingFrom cursor).take limit = [] := List.map_eq_nil_iff.mp hids.symm
    rcases List.take_eq_nil_iff.mp hnil with hzero | hempty
    · exact hlimit hzero
    · rw [nextCursor, hempty, List.drop_nil] at hmore
      exact hmore rfl

/-- A page, from the registry as it was when it was asked for. -/
theorem Shelved.pageOf (h : r.Shelved b) (hwf : b.Wf) (hlt : b.count < 2 ^ 32) (cursor : Nat)
    {limit : Nat} (hlimit : limit ≠ 0) (now : Instant) :
    PageOf r b cursor (r.listTopics cursor limit now).1.1 (r.listTopics cursor limit now).1.2 := by
  unfold listTopics
  dsimp only
  rw [if_neg hlimit]
  exact ((h.expireFresh now).pageOf_listFrom hwf hlt cursor hlimit).congr (topics_expireFresh r now)

end Page

/-! ## A walk

Consecutive pages, with anything else between them.  A topic that stays listed
is in the page whose stretch its number falls into; a walk ends because every
page but the last is full. -/

/-- The calls made since the last page, and the limit and time of the next
request. -/
structure Turn where
  ops : List Op
  limit : Nat
  now : Instant

/-- A page, with the registry it was read from and the marks of the run up to
there. -/
structure Page where
  reg : Registry
  past : List Mark
  topics : List TopicSummary
  next : Nat

/-- The number of a topic's last making before the page. -/
def Page.number (p : Page) (t : TopicId) : Nat := (Board.ofMarks p.past).number t

/-- `explore_pages`: from a cursor on, until the next cursor is zero. -/
def explorePages (P : Primitives) : Registry → List Mark → Nat → List Turn → List Page
  | _, _, _, [] => []
  | r, hist, cursor, turn :: turns =>
      let reg := run (step P) r turn.ops
      let past := hist ++ history P r turn.ops
      let (found, r') := reg.listTopics cursor turn.limit turn.now
      ⟨reg, past, found.1, found.2⟩ ::
        if found.2 = 0 then [] else explorePages P r' past found.2 turns

/-- Everything a walk returned, with the page it was on. -/
def returned (pages : List Page) : List (Page × TopicSummary) :=
  pages.flatMap fun p => p.topics.map fun x => (p, x)

/-- What a walk has returned, page by page. -/
theorem mem_returned {pages : List Page} {x : Page × TopicSummary} :
    x ∈ returned pages ↔ x.1 ∈ pages ∧ x.2 ∈ x.1.topics := by
  simp only [returned, List.mem_flatMap, List.mem_map]
  constructor
  · rintro ⟨p, hp, y, hy, rfl⟩
    exact ⟨hp, hy⟩
  · rintro ⟨hp, hy⟩
    exact ⟨x.1, hp, x.2, hy, rfl⟩

theorem returned_cons (p : Page) (pages : List Page) :
    returned (p :: pages) = (p.topics.map fun x => (p, x)) ++ returned pages :=
  List.flatMap_cons

/-- What the pages of a walk from `cursor` on are together. -/
structure WalkOf (cursor : Nat) (turns : List Turn) (pages : List Page) : Prop where
  standing : ∀ x ∈ returned pages, x.2.id ∈ x.1.reg.topics ∧
    (Board.ofMarks x.1.past).standing x.2.id = some (x.1.number x.2.id, x.2.mode, true)
  increasing : (returned pages).Pairwise fun x y => x.1.number x.2.id < y.1.number y.2.id
  low : ∀ x ∈ returned pages, cursor ≤ x.1.number x.2.id
  nonempty : ∀ p ∈ pages, p.next ≠ 0 → p.topics ≠ []
  complete : (∃ p ∈ pages, p.next = 0) → ∀ t o, cursor ≤ o →
    (∀ p ∈ pages, p.number t = o ∧ ∃ s, p.reg.topics.lookup t = some s ∧ s.listed = true) →
    ∃ x ∈ returned pages, x.2.id = t
  /-- As long as it has not ended it has a page for every turn. -/
  length : (∀ p ∈ pages, p.next ≠ 0) → pages.length = turns.length

/-- The page is what `PageOf` says of the registry and the board it was read
from. -/
def Page.From (p : Page) (cursor : Nat) : Prop :=
  PageOf p.reg (Board.ofMarks p.past) cursor p.topics p.next

section Walk

variable {P : Primitives} {key : SymKey} {known : List (TopicId × Endpoint)} {cursor : Nat}
  {turn : Turn} {turns : List Turn} {p : Page} {pages : List Page}

theorem WalkOf.nil (cursor : Nat) : WalkOf cursor [] [] := by
  refine ⟨?_, .nil, ?_, ?_, ?_, fun _ => rfl⟩
  · intro x hx
    cases hx
  · intro x hx
    cases hx
  · intro p hp
    cases hp
  · rintro ⟨p, hp, -⟩
    cases hp

/-- A topic that is on the page when nothing, or nothing below it, is left for
later. -/
theorem Page.From.finds (h : p.From cursor) {t : TopicId} {o : Nat} (hge : cursor ≤ o)
    (hbelow : p.next ≠ 0 → o < p.next)
    (ht : p.number t = o ∧ ∃ s, p.reg.topics.lookup t = some s ∧ s.listed = true) :
    ∃ x ∈ returned (p :: pages), x.2.id = t := by
  obtain ⟨rfl, s, hs, hl⟩ := ht
  obtain ⟨x, hx, hid⟩ := h.complete t s hs hl hge hbelow
  exact ⟨(p, x), mem_returned.mpr ⟨List.mem_cons_self, hx⟩, hid⟩

/-- The last page of a walk. -/
theorem WalkOf.last (h : p.From cursor) (hend : p.next = 0) :
    WalkOf cursor (turn :: turns) [p] := by
  have hflat : returned [p] = p.topics.map fun x => (p, x) := by
    rw [returned_cons]
    exact List.append_nil _
  have hmem : ∀ x ∈ returned [p], x.1 = p ∧ x.2 ∈ p.topics := by
    intro x hx
    obtain ⟨hpage, htopic⟩ := mem_returned.mp hx
    have heq := List.mem_singleton.mp hpage
    exact ⟨heq, heq ▸ htopic⟩
  refine ⟨?_, ?_, ?_, ?_, ?_, ?_⟩
  · intro x hx
    obtain ⟨rfl, htopic⟩ := hmem x hx
    exact h.standing x.2 htopic
  · rw [hflat]
    exact List.pairwise_map.mpr h.increasing
  · intro x hx
    obtain ⟨rfl, htopic⟩ := hmem x hx
    exact h.low x.2 htopic
  · intro p' hp' hnext
    rw [List.mem_singleton.mp hp'] at hnext
    exact absurd hend hnext
  · intro _ t o hge ht
    exact h.finds hge (fun hnext => absurd hend hnext) (ht p List.mem_cons_self)
  · intro hnext
    exact absurd hend (hnext p List.mem_cons_self)

/-- A page and the walk from its next cursor on. -/
theorem WalkOf.step (h : p.From cursor) (hmore : p.next ≠ 0) (hwalk : WalkOf p.next turns pages) :
    WalkOf cursor (turn :: turns) (p :: pages) := by
  have hcursor : cursor ≤ p.next := by
    obtain ⟨x, hx⟩ := List.exists_mem_of_ne_nil _ (h.nonempty hmore)
    exact Nat.le_of_lt (Nat.lt_of_le_of_lt (h.low x hx) (h.high hmore x hx))
  have hcases : ∀ x ∈ returned (p :: pages), (x.1 = p ∧ x.2 ∈ p.topics) ∨ x ∈ returned pages := by
    intro x hx
    rw [returned_cons, List.mem_append] at hx
    rcases hx with hx | hx
    · obtain ⟨y, hy, rfl⟩ := List.mem_map.mp hx
      exact Or.inl ⟨rfl, hy⟩
    · exact Or.inr hx
  refine ⟨?_, ?_, ?_, ?_, ?_, ?_⟩
  · intro x hx
    rcases hcases x hx with ⟨rfl, htopic⟩ | hlater
    · exact h.standing x.2 htopic
    · exact hwalk.standing x hlater
  · rw [returned_cons, List.pairwise_append]
    refine ⟨List.pairwise_map.mpr h.increasing, hwalk.increasing, ?_⟩
    intro x hx y hy
    obtain ⟨x, htopic, rfl⟩ := List.mem_map.mp hx
    exact Nat.lt_of_lt_of_le (h.high hmore x htopic) (hwalk.low y hy)
  · intro x hx
    rcases hcases x hx with ⟨rfl, htopic⟩ | hlater
    · exact h.low x.2 htopic
    · exact Nat.le_trans hcursor (hwalk.low x hlater)
  · intro p' hp' hnext
    rcases List.mem_cons.mp hp' with rfl | hlater
    · exact h.nonempty hnext
    · exact hwalk.nonempty p' hlater hnext
  · rintro ⟨p', hp', hend⟩ t o hge ht
    rcases Nat.lt_or_ge o p.next with hbelow | hlater
    · exact h.finds hge (fun _ => hbelow) (ht p List.mem_cons_self)
    · rcases List.mem_cons.mp hp' with rfl | hp'
      · exact absurd hend hmore
      · obtain ⟨x, hx, hid⟩ := hwalk.complete ⟨p', hp', hend⟩ t o hlater
          fun q hq => ht q (List.mem_cons_of_mem _ hq)
        refine ⟨x, ?_, hid⟩
        rw [returned_cons]
        exact List.mem_append_right _ hx
  · intro hall
    rw [List.length_cons, List.length_cons,
      hwalk.length fun q hq => hall q (List.mem_cons_of_mem _ hq)]

/-- The pages a client asks for make a walk, whatever happens between them. -/
theorem walkOf_explorePages (hsep : Separates P key known)
    (hlimit : ∀ turn ∈ turns, turn.limit ≠ 0)
    (hops : ∀ turn ∈ turns, ∀ op ∈ turn.ops, ∀ p ∈ op.registers, p ∈ known) {r : Registry}
    {hist : List Mark} (hsound : r.Sound P key known) (hbook : r.Shelved (Board.ofMarks hist))
    (cursor : Nat)
    (hfew : ∀ p ∈ explorePages P r hist cursor turns, creations p.past < 2 ^ 32) :
    WalkOf cursor turns (explorePages P r hist cursor turns) := by
  induction turns generalizing r hist cursor with
  | nil => exact .nil cursor
  | cons turn turns ih =>
      obtain ⟨hsound, hbook⟩ := keeps_run (I := fun hist r => r.Shelved (Board.ofMarks hist))
        (fun _ _ _ _ _ hs h hm => h.move hs hm) hsep (hops turn List.mem_cons_self) hist hsound hbook
      unfold explorePages at hfew ⊢
      generalize run (Registry.step P) r turn.ops = reg at hsound hbook hfew ⊢
      generalize hist ++ history P r turn.ops = past at hbook hfew ⊢
      have hcount : (Board.ofMarks past).count < 2 ^ 32 := by
        rw [count_ofMarks]
        exact hfew _ List.mem_cons_self
      have hpage := hbook.pageOf (Board.wf_ofMarks _) hcount cursor
        (hlimit turn List.mem_cons_self) turn.now
      have hafter : (reg.listTopics cursor turn.limit turn.now).2 = reg.expireFresh turn.now := rfl
      rcases hres : reg.listTopics cursor turn.limit turn.now with ⟨⟨topics, next⟩, r'⟩
      rw [hres] at hpage hafter
      simp only [hres] at hfew ⊢
      cases hafter
      split
      · rename_i hend
        exact .last hpage hend
      · rename_i hmore
        rw [if_neg hmore] at hfew
        refine .step hpage hmore (ih (fun t ht => hlimit t (List.mem_cons_of_mem _ ht))
          (fun t ht => hops t (List.mem_cons_of_mem _ ht)) ?_ ?_ next
          fun p hp => hfew p (List.mem_cons_of_mem _ hp))
        · exact hsound.of_view (view_expireFresh reg turn.now)
        · exact hbook.expireFresh turn.now

theorem length_le_length_returned (h : ∀ p ∈ pages, p.topics ≠ []) :
    pages.length ≤ (returned pages).length := by
  induction pages with
  | nil => exact Nat.le_refl _
  | cons p pages ih =>
      have hone := List.length_pos_of_ne_nil (h p List.mem_cons_self)
      have hrest := ih fun q hq => h q (List.mem_cons_of_mem _ hq)
      rw [returned_cons, List.length_append, List.length_map, List.length_cons]
      omega

/-- There are not more increasing numbers up to `n` than `n`. -/
theorem length_le_of_increasing {α : Type} {l : List α} {f : α → Nat} {n : Nat}
    (hincr : l.Pairwise (f · < f ·)) (hbounds : ∀ x ∈ l, 0 < f x ∧ f x ≤ n) : l.length ≤ n := by
  have hnodup : (l.map f).Nodup := List.pairwise_map.mpr (hincr.imp Nat.ne_of_lt)
  have hsub : l.map f ⊆ List.range' 1 n := by
    intro k hk
    obtain ⟨x, hx, rfl⟩ := List.mem_map.mp hk
    have := hbounds x hx
    rw [List.mem_range'_1]
    omega
  have hle := (List.subperm_of_subset hnodup hsub).length_le
  rwa [List.length_map, List.length_range'] at hle

/-- What is returned at most once per number, and always under one number, is
returned at most once. -/
theorem WalkOf.count_le_one (h : WalkOf cursor turns pages) {t : TopicId} {o : Nat}
    (ht : ∀ p ∈ pages, p.number t = o) :
    (returned pages).countP (fun x => x.2.id = t) ≤ 1 := by
  have hincr := h.increasing
  have hsame : ∀ x ∈ returned pages, x.2.id = t → x.1.number x.2.id = o := by
    intro x hx hid
    rw [hid]
    exact ht x.1 (mem_returned.mp hx).1
  generalize returned pages = l at hincr hsame
  induction l with
  | nil => exact Nat.zero_le _
  | cons x l ih =>
      obtain ⟨hafter, hrest⟩ := List.pairwise_cons.mp hincr
      have hlater := ih hrest fun y hy => hsame y (List.mem_cons_of_mem _ hy)
      rw [List.countP_cons]
      split
      · rename_i hid
        have hnum := hsame x List.mem_cons_self (of_decide_eq_true hid)
        have hnone : l.countP (fun y => y.2.id = t) = 0 := by
          refine List.countP_eq_zero.mpr fun y hy hid' => ?_
          have hnum' := hsame y (List.mem_cons_of_mem _ hy) (of_decide_eq_true hid')
          have hlt := hafter y hy
          omega
        rw [hnone]
      · exact hlater

/-- A walk with more turns than topics were made has ended. -/
theorem WalkOf.ends (h : WalkOf cursor turns pages) {n : Nat}
    (hcount : ∀ p ∈ pages, creations p.past ≤ n) (hlong : n < turns.length) :
    ∃ p ∈ pages, p.next = 0 := by
  by_contra hnone
  have hall : ∀ p ∈ pages, p.next ≠ 0 := fun p hp hend => hnone ⟨p, hp, hend⟩
  have hpages := length_le_length_returned fun p hp => h.nonempty p hp (hall p hp)
  have hfew : (returned pages).length ≤ n := by
    refine length_le_of_increasing h.increasing fun x hx => ?_
    obtain ⟨-, hstand⟩ := h.standing x hx
    obtain ⟨hpos, hle⟩ := (Board.wf_ofMarks x.1.past).bounds _ _ hstand
    rw [count_ofMarks] at hle
    exact ⟨hpos, Nat.le_trans hle (hcount x.1 (mem_returned.mp hx).1)⟩
  have hlen := h.length hall
  omega

end Walk

/-- A walk through the listing from cursor 0, with any calls between its pages.
Every topic it returns is alive and listed, that is, not hidden since it was
last made, and has the mode it was made with; the numbers of the makings
increase from one to the next; no page but the last is empty; once the walk has
ended, a topic that was alive and listed at every page and was not made anew
meanwhile has been returned once; and if no topic is made meanwhile, it ends. -/
theorem listing_walk (P : Primitives) (cfg : RegistryConfig) (secret : SymKey) (ops : List Op)
    (turns : List Turn) (pages : List Page)
    (hpages : pages = explorePages P (run (step P) { cfg := cfg, secret := secret } ops)
      (history P { cfg := cfg, secret := secret } ops) 0 turns)
    (hsep : Separates P secret ((ops ++ turns.flatMap Turn.ops).filterMap Op.registers))
    (hlimit : ∀ turn ∈ turns, turn.limit ≠ 0)
    (hfew : ∀ p ∈ pages, creations p.past < 2 ^ 32 - 1) :
    (∀ x ∈ returned pages, x.2.id ∈ x.1.reg.topics ∧
      (Board.ofMarks x.1.past).standing x.2.id = some (x.1.number x.2.id, x.2.mode, true)) ∧
    (returned pages).Pairwise (fun x y => x.1.number x.2.id < y.1.number y.2.id) ∧
    (∀ p ∈ pages, p.next ≠ 0 → p.topics ≠ []) ∧
    ((∃ p ∈ pages, p.next = 0) → ∀ t o,
      (∀ p ∈ pages, p.number t = o ∧
        ∃ s, p.reg.topics.lookup t = some s ∧ s.listed = true) →
      (returned pages).countP (fun x => x.2.id = t) = 1) ∧
    ((∀ p ∈ pages, creations p.past = creations (history P { cfg := cfg, secret := secret } ops)) →
      creations (history P { cfg := cfg, secret := secret } ops) < turns.length →
      ∃ p ∈ pages, p.next = 0) := by
  have hknown : ∀ op, op ∈ ops ++ turns.flatMap Turn.ops → ∀ p ∈ op.registers,
      p ∈ (ops ++ turns.flatMap Turn.ops).filterMap Op.registers :=
    fun op hop p hp => List.mem_filterMap.mpr ⟨op, hop, hp⟩
  obtain ⟨hsound, hbook⟩ := keeps_run (I := fun hist r => r.Shelved (Board.ofMarks hist))
    (fun _ _ _ _ _ hs h hm => h.move hs hm) hsep
    (fun op hop => hknown op (List.mem_append_left _ hop)) []
    (Sound.init P cfg secret _) (Shelved.init cfg secret)
  have hturns : ∀ turn ∈ turns, ∀ op ∈ turn.ops, ∀ p ∈ op.registers,
      p ∈ (ops ++ turns.flatMap Turn.ops).filterMap Op.registers := by
    intro turn hturn op hop
    exact hknown op (List.mem_append_right _ (List.mem_flatMap.mpr ⟨turn, hturn, hop⟩))
  have hwalk : WalkOf 0 turns pages := by
    rw [hpages] at hfew ⊢
    refine walkOf_explorePages hsep hlimit hturns hsound hbook 0 fun p hp => ?_
    exact Nat.lt_of_lt_of_le (hfew p hp) (Nat.sub_le _ _)
  refine ⟨hwalk.standing, hwalk.increasing, hwalk.nonempty, ?_, ?_⟩
  · intro hend t o ht
    refine Nat.le_antisymm (hwalk.count_le_one fun p hp => (ht p hp).1) ?_
    obtain ⟨x, hx, hid⟩ := hwalk.complete hend t o (Nat.zero_le _) ht
    exact List.countP_pos_iff.mpr ⟨x, hx, decide_eq_true hid⟩
  · intro hquiet hlong
    exact hwalk.ends (fun p hp => Nat.le_of_eq (hquiet p hp)) hlong

/-- An operation makes one topic at most. -/
theorem creations_history_le (P : Primitives) (r : Registry) (ops : List Op) :
    creations (history P r ops) ≤ ops.length := by
  induction ops generalizing r with
  | nil => exact Nat.le_refl _
  | cons op ops ih =>
      have hone := creations_marks_le P r op
      have hrest := ih (step P r op)
      have hsplit : creations (history P r (op :: ops)) =
          creations (marks P r op) + creations (history P (step P r op) ops) :=
        creations_append _ _
      rw [hsplit, List.length_cons]
      omega

/-- There are not more creations before a page than there were, and calls since. -/
theorem creations_past_le {P : Primitives} {turns : List Turn} {r : Registry} {hist : List Mark}
    {cursor : Nat} {p : Page} (hp : p ∈ explorePages P r hist cursor turns) :
    creations p.past ≤ creations hist + (turns.flatMap Turn.ops).length := by
  induction turns generalizing r hist cursor with
  | nil => cases hp
  | cons turn turns ih =>
      have hturn := creations_history_le P r turn.ops
      have hpast : creations (hist ++ history P r turn.ops) ≤ creations hist + turn.ops.length := by
        rw [creations_append]
        omega
      rw [List.flatMap_cons, List.length_append]
      unfold explorePages at hp
      rcases hres : (run (step P) r turn.ops).listTopics cursor turn.limit turn.now with ⟨found, r'⟩
      simp only [hres] at hp
      rcases List.mem_cons.mp hp with rfl | hp
      · refine Nat.le_trans hpast ?_
        omega
      · split at hp
        · cases hp
        · have hlater := ih hp
          omega

/-- Two topics; the first page ends at the second topic, which leaves before the
next page is read while a third one comes. -/
def sampleTurns : List Turn :=
  [⟨[], 1, 0⟩,
   ⟨[.dropOwner 2, .register { id := Vector.replicate 16 3 } { port := 7 } 3 0], 1, 0⟩]

def sampleArrivals : List Op :=
  [.register { id := Vector.replicate 16 1 } { port := 7 } 1 0,
   .register { id := Vector.replicate 16 2 } { port := 7 } 2 0]

def samplePages : List Page :=
  explorePages Primitives.checksum
    (run (step Primitives.checksum) { secret := Vector.replicate 32 0 } sampleArrivals)
    (history Primitives.checksum { secret := Vector.replicate 32 0 } sampleArrivals) 0 sampleTurns

theorem listing_walk_sample :
    Separates Primitives.checksum (Vector.replicate 32 0)
      ((sampleArrivals ++ sampleTurns.flatMap Turn.ops).filterMap Op.registers) ∧
    (∀ p ∈ samplePages, creations p.past < 2 ^ 32 - 1) ∧
    (returned samplePages).Pairwise (fun x y => x.1.number x.2.id < y.1.number y.2.id) := by
  have hsep : Separates Primitives.checksum (Vector.replicate 32 0)
      ((sampleArrivals ++ sampleTurns.flatMap Turn.ops).filterMap Op.registers) := by
    unfold Separates
    decide +kernel
  have hlimit : ∀ turn ∈ sampleTurns, turn.limit ≠ 0 := by decide
  have hfew : ∀ p ∈ samplePages, creations p.past < 2 ^ 32 - 1 := by
    intro p hp
    refine Nat.lt_of_le_of_lt (creations_past_le hp) ?_
    decide +kernel
  refine ⟨hsep, hfew, ?_⟩
  exact (listing_walk Primitives.checksum {} (Vector.replicate 32 0) sampleArrivals sampleTurns
    samplePages rfl hsep hlimit hfew).2.1

end Registry

end UConnect.Server
