import Mathlib.Data.List.Nodup
import Mathlib.Data.List.Induction
import Mathlib.Tactic.Common

/-!
# Which feed keeps an event, and where its cursor is kept

A source is read through feeds, each an index pattern with a role.  The polled feeds are the
enabled ones that are not `ignore`; each searches its own pattern and keeps the hits it owns.  The
owner of an index is the configured feed with the longest pattern that matches it, disabled feeds
included.  The cursor of a feed is stored under the source id and the feed id, joined with `:`;
the Elasticsearch store rewrites what it does not allow in a document id.
-/

namespace AgenticKibana.Poll

/-- A piece of a pattern of `fnmatch`. -/
inductive Piece where
  | star
  | any
  | lit (c : Char)
  | set (negated : Bool) (ranges : List (Char × Char))
deriving DecidableEq, Repr

def setRanges : List Char → List (Char × Char)
  | x :: '-' :: y :: cs => (x, y) :: setRanges cs
  | x :: cs => (x, x) :: setRanges cs
  | [] => []

/-- What stands behind `[`: the set and the rest, if the set is closed.  A `]` at its
beginning belongs to it. -/
def closeSet (cs : List Char) : Option (Piece × List Char) :=
  let (negated, cs) := match cs with
    | '!' :: cs => (true, cs)
    | cs => (false, cs)
  let (first, cs) := match cs with
    | ']' :: cs => ([']'], cs)
    | cs => ([], cs)
  match cs.span (· ≠ ']') with
  | (body, _ :: rest) => some (.set negated (setRanges (first ++ body)), rest)
  | (_, []) => none

/-- The pieces of a pattern; `fuel` is its length. -/
def pieces : Nat → List Char → List Piece
  | 0, _ => []
  | _, [] => []
  | fuel + 1, '*' :: cs => .star :: pieces fuel cs
  | fuel + 1, '?' :: cs => .any :: pieces fuel cs
  | fuel + 1, '[' :: cs =>
    match closeSet cs with
    | some (set, rest) => set :: pieces fuel rest
    | none => .lit '[' :: pieces fuel cs
  | fuel + 1, c :: cs => .lit c :: pieces fuel cs

def Piece.accepts : Piece → Char → Bool
  | .star, _ => false
  | .any, _ => true
  | .lit x, c => x = c
  | .set negated ranges, c => (ranges.any fun r => r.1 ≤ c ∧ c ≤ r.2) != negated

def matchPieces : List Piece → List Char → Bool
  | [], cs => cs.isEmpty
  | .star :: ps, cs => cs.tails.any (matchPieces ps)
  | p :: ps, c :: cs => p.accepts c && matchPieces ps cs
  | _ :: _, [] => false

def fnmatch (name pattern : String) : Bool :=
  matchPieces (pieces pattern.length pattern.toList) name.toList

/-! ### Feeds -/

inductive IndexRole where
  | events | alerts | ignore
deriving DecidableEq, Repr

/-- An `IndexPattern`, of which the choice of the feed reads these fields. -/
structure Feed where
  pattern : String
  id : String
  role : IndexRole
  enabled : Bool
deriving DecidableEq, Repr

def pollFeeds (feeds : List Feed) : List Feed :=
  feeds.filter fun f => f.enabled && f.role ≠ .ignore

def Feed.covers (f : Feed) (index : String) : Bool :=
  f.pattern ≠ "" && fnmatch index f.pattern

/-- The loop of `_feed_for_index`: a later feed takes over with a longer pattern only. -/
def moreSpecific (index : String) (best : Option Feed) (f : Feed) : Option Feed :=
  if f.covers index && best.all (fun b => b.pattern.length < f.pattern.length) then some f
  else best

def feedForIndex (feeds : List Feed) (index : String) : Option Feed :=
  feeds.foldl (moreSpecific index) none

def ownsIndex (feeds : List Feed) (feed : Feed) (index : String) : Bool :=
  match feedForIndex feeds index with
  | none => true
  | some owner => owner.id = feed.id

structure Hit where
  id : String
  index : String
deriving DecidableEq, Repr

/-- What `poll_feed_scan` keeps of the hits that the search of the feed returned. -/
def pollFeedScan (search : Feed → List Hit) (feeds : List Feed) (feed : Feed) : List Hit :=
  (search feed).filter fun h => ownsIndex feeds feed h.index

def keepers (search : Feed → List Hit) (feeds : List Feed) (hit : Hit) : List Feed :=
  (pollFeeds feeds).filter fun f => hit ∈ pollFeedScan search feeds f

variable {feeds : List Feed} {index : String}

/-- The feed whose pattern matches the index with the most characters, and of several the one that
stands first in the configuration. -/
def MostSpecific (feeds : List Feed) (index : String) (f : Feed) : Prop :=
  f.covers index = true ∧ ∃ before after, feeds = before ++ f :: after ∧
    (∀ g ∈ before, g.covers index = true → g.pattern.length < f.pattern.length) ∧
    ∀ g ∈ after, g.covers index = true → g.pattern.length ≤ f.pattern.length

theorem MostSpecific.mem {f : Feed} (h : MostSpecific feeds index f) : f ∈ feeds := by
  obtain ⟨-, before, after, rfl, -⟩ := h
  exact List.mem_append_right before List.mem_cons_self

theorem MostSpecific.longest {f g : Feed} (h : MostSpecific feeds index f) (hg : g ∈ feeds)
    (hcovers : g.covers index = true) : g.pattern.length ≤ f.pattern.length := by
  obtain ⟨-, before, after, rfl, hbefore, hafter⟩ := h
  rcases List.mem_append.mp hg with hg | hg
  · exact Nat.le_of_lt (hbefore g hg hcovers)
  · rcases List.mem_cons.mp hg with rfl | hg
    · exact Nat.le_refl _
    · exact hafter g hg hcovers

/-- What the loop holds once it has seen the feeds. -/
theorem feedForIndex_spec (feeds : List Feed) (index : String) :
    match feedForIndex feeds index with
    | none => ∀ f ∈ feeds, f.covers index = false
    | some f => MostSpecific feeds index f := by
  induction feeds using List.reverseRecOn with
  | nil => exact nofun
  | append_singleton feeds f ih =>
    rw [show feedForIndex (feeds ++ [f]) index = moreSpecific index (feedForIndex feeds index) f by
      simp [feedForIndex]]
    cases hbest : feedForIndex feeds index with
    | none =>
      rw [hbest] at ih
      by_cases hcovers : f.covers index = true
      · have htakes : moreSpecific index none f = some f := by simp [moreSpecific, hcovers]
        rw [htakes]
        refine ⟨hcovers, feeds, [], rfl, fun g hg hcovers => ?_, fun g hg => (by cases hg)⟩
        exact absurd hcovers (by simp [ih g hg])
      · have hstays : moreSpecific index none f = none := by simp [moreSpecific, hcovers]
        rw [hstays]
        intro g hg
        rcases List.mem_append.mp hg with hg | hg
        · exact ih g hg
        · rw [List.mem_singleton.mp hg]
          simpa using hcovers
    | some best =>
      rw [hbest] at ih
      by_cases htake : f.covers index = true ∧ best.pattern.length < f.pattern.length
      · have htakes : moreSpecific index (some best) f = some f := by simp [moreSpecific, htake]
        rw [htakes]
        refine ⟨htake.1, feeds, [], rfl, fun g hg hcovers => ?_, fun g hg => (by cases hg)⟩
        exact Nat.lt_of_le_of_lt (MostSpecific.longest ih hg hcovers) htake.2
      · have hstays : moreSpecific index (some best) f = some best := by
          simpa [moreSpecific] using fun h1 h2 => absurd ⟨h1, h2⟩ htake
        rw [hstays]
        obtain ⟨hcovers, before, after, rfl, hbefore, hafter⟩ := ih
        refine ⟨hcovers, before, after ++ [f], by simp, hbefore, fun g hg hg' => ?_⟩
        rcases List.mem_append.mp hg with hg | hg
        · exact hafter g hg hg'
        · rw [List.mem_singleton.mp hg] at hg' ⊢
          exact Nat.le_of_not_lt fun hlt => htake ⟨hg', hlt⟩

theorem MostSpecific.unique {f g : Feed} (hf : MostSpecific feeds index f)
    (hg : MostSpecific feeds index g) : f = g := by
  obtain ⟨hf, before, after, rfl, hbefore, hafter⟩ := hf
  obtain ⟨hg, before', after', hsame, hbefore', hafter'⟩ := hg
  rcases List.append_eq_append_iff.mp hsame with ⟨between, rfl, hrest⟩ | ⟨between, rfl, hrest⟩
  · cases between with
    | nil => exact (List.cons.inj hrest).1
    | cons x between =>
      obtain ⟨rfl, rfl⟩ := List.cons.inj hrest
      have hlt := hbefore' f (by simp) hf
      have hle := hafter g (by simp) hg
      omega
  · cases between with
    | nil => exact (List.cons.inj hrest).1.symm
    | cons x between =>
      obtain ⟨rfl, rfl⟩ := List.cons.inj hrest
      have hlt := hbefore g (by simp) hg
      have hle := hafter' f (by simp) hf
      omega

/-- **The owner of an index** is the feed that matches it best. -/
theorem feedForIndex_eq_some_iff {f : Feed} :
    feedForIndex feeds index = some f ↔ MostSpecific feeds index f := by
  have hspec := feedForIndex_spec feeds index
  cases howner : feedForIndex feeds index with
  | none =>
    rw [howner] at hspec
    refine iff_of_false nofun fun h => ?_
    exact absurd h.1 (by simp [hspec f h.mem])
  | some g =>
    rw [howner] at hspec
    constructor
    · rintro ⟨⟩
      exact hspec
    · intro h
      rw [h.unique hspec]

theorem feedForIndex_eq_none (h : feedForIndex feeds index = none) :
    ∀ f ∈ feeds, f.covers index = false := by
  have hspec := feedForIndex_spec feeds index
  rw [h] at hspec
  exact hspec

def enabledFeeds (feeds : List Feed) : List Feed := feeds.filter Feed.enabled

theorem MostSpecific.of_enabled {f : Feed} (h : MostSpecific feeds index f)
    (henabled : f.enabled = true) : MostSpecific (enabledFeeds feeds) index f := by
  obtain ⟨hcovers, before, after, rfl, hbefore, hafter⟩ := h
  refine ⟨hcovers, enabledFeeds before, enabledFeeds after, ?_, fun g hg => ?_, fun g hg => ?_⟩
  · simp [enabledFeeds, henabled]
  · exact hbefore g (List.mem_of_mem_filter hg)
  · exact hafter g (List.mem_of_mem_filter hg)

/-! ### Who keeps a hit -/

variable {search : Feed → List Hit} {hit : Hit}

/-- The most specific of the enabled feeds that match the index is there and is no ignore feed. -/
def Due (feeds : List Feed) (index : String) : Prop :=
  ∃ f, MostSpecific (enabledFeeds feeds) index f ∧ f.role ≠ .ignore

/-- **The feeds partition the indices**, as far as a hit is concerned: one polled feed keeps it if
it is due to one, and none otherwise. -/
structure Partitioned (search : Feed → List Hit) (feeds : List Feed) (hit : Hit) : Prop where
  one : Due feeds hit.index → (keepers search feeds hit).length = 1
  none : ¬Due feeds hit.index → keepers search feeds hit = []

/-- The polled feeds with an identifier whose search returns the hit.  These need not be the feeds
that match its index: a hit of a data stream or an alias has the name of the index behind it. -/
def readers (search : Feed → List Hit) (feeds : List Feed) (hit : Hit) (id : String) : List Feed :=
  (pollFeeds feeds).filter fun f => hit ∈ search f && f.id = id

/-- What the feeds and their searches have to be for a hit.  No search returns it from an index that
no feed matches.  Of the polled feeds with the identifier of the most specific feed, one search
returns it if that feed is polled, and none if that is an ignore feed; and where it is disabled, one
if the most specific enabled feed is polled, and none otherwise. -/
structure WellFed (search : Feed → List Hit) (feeds : List Feed) (hit : Hit) : Prop where
  unmatched : (∀ f ∈ feeds, f.covers hit.index = false) → ∀ f ∈ pollFeeds feeds, hit ∉ search f
  polled : ∀ f, MostSpecific feeds hit.index f → f.enabled = true → f.role ≠ .ignore →
    (readers search feeds hit f.id).length = 1
  ignored : ∀ f, MostSpecific feeds hit.index f → f.enabled = true → f.role = .ignore →
    readers search feeds hit f.id = []
  replaced : ∀ f e, MostSpecific feeds hit.index f → f.enabled = false →
    MostSpecific (enabledFeeds feeds) hit.index e → e.role ≠ .ignore →
    (readers search feeds hit f.id).length = 1
  unreplaced : ∀ f, MostSpecific feeds hit.index f → f.enabled = false →
    (∀ e, MostSpecific (enabledFeeds feeds) hit.index e → e.role = .ignore) →
    readers search feeds hit f.id = []

theorem keepers_of_owner {owner : Feed} (h : MostSpecific feeds hit.index owner) :
    keepers search feeds hit = readers search feeds hit owner.id := by
  refine List.filter_congr fun f _ => ?_
  have howner := feedForIndex_eq_some_iff.mpr h
  simp [pollFeedScan, ownsIndex, howner, Bool.decide_and, eq_comm]

theorem keepers_of_unmatched (h : ∀ f ∈ feeds, f.covers hit.index = false) :
    keepers search feeds hit = (pollFeeds feeds).filter fun f => hit ∈ search f := by
  refine List.filter_congr fun f _ => ?_
  have hnone : feedForIndex feeds hit.index = none := by
    cases howner : feedForIndex feeds hit.index with
    | none => rfl
    | some g =>
      have hg := feedForIndex_eq_some_iff.mp howner
      exact absurd hg.1 (by simp [h g hg.mem])
  simp [pollFeedScan, ownsIndex, hnone]

theorem due_iff_of_enabled {f : Feed} (h : MostSpecific feeds index f)
    (henabled : f.enabled = true) :
    Due feeds index ↔ f.role ≠ .ignore := by
  constructor
  · rintro ⟨e, he, hrole⟩
    rw [(h.of_enabled henabled).unique he]
    exact hrole
  · exact fun hrole => ⟨f, h.of_enabled henabled, hrole⟩

/-- Feeds with identifiers of their own, whose searches return what they match, are well fed unless a
disabled feed is the most specific where a hit is due to an enabled one. -/
theorem wellFed_iff_of_distinct (hids : (feeds.map Feed.id).Nodup)
    (hsearch : ∀ f ∈ pollFeeds feeds, hit ∈ search f ↔ f.covers hit.index = true) :
    WellFed search feeds hit ↔
      (Due feeds hit.index → ∃ f, MostSpecific feeds hit.index f ∧ f.enabled = true) := by
  have hpolled : ∀ {f}, f ∈ pollFeeds feeds ↔ f ∈ feeds ∧ f.enabled = true ∧ f.role ≠ .ignore := by
    intro f
    simp only [pollFeeds, List.mem_filter, Bool.and_eq_true, decide_eq_true_eq]
  have hsame : ∀ f ∈ feeds, ∀ g ∈ readers search feeds hit f.id, g = f := by
    intro f hf g hg
    simp only [readers, List.mem_filter, Bool.and_eq_true, decide_eq_true_eq] at hg
    exact List.inj_on_of_nodup_map hids (hpolled.mp hg.1).1 hf hg.2.2
  have hnone : ∀ f ∈ feeds, f ∉ pollFeeds feeds → readers search feeds hit f.id = [] := by
    intro f hf hout
    refine List.eq_nil_iff_forall_not_mem.mpr fun g hg => hout ?_
    rw [← hsame f hf g hg]
    exact List.mem_of_mem_filter hg
  constructor
  · rintro h ⟨e, he, hrole⟩
    cases howner : feedForIndex feeds hit.index with
    | none =>
      have hunmatched := feedForIndex_eq_none howner e (List.mem_of_mem_filter he.mem)
      exact absurd he.1 (by simp [hunmatched])
    | some f =>
      have hf := feedForIndex_eq_some_iff.mp howner
      refine ⟨f, hf, ?_⟩
      by_contra hdisabled
      have hone := h.replaced f e hf (by simpa using hdisabled) he hrole
      rw [hnone f hf.mem fun hpoll => hdisabled (hpolled.mp hpoll).2.1] at hone
      cases hone
  · intro hdue
    refine ⟨fun hunmatched f hf hmem => ?_, fun f hf henabled hrole => ?_, fun f hf _ hrole => ?_,
      fun f e hf hdisabled he hrole => ?_, fun f hf hdisabled _ => ?_⟩
    · exact absurd ((hsearch f hf).mp hmem) (by simp [hunmatched f (hpolled.mp hf).1])
    · have hpoll := hpolled.mpr ⟨hf.mem, henabled, hrole⟩
      have hmem : f ∈ readers search feeds hit f.id := by
        simp [readers, hpoll, (hsearch f hpoll).mpr hf.1]
      have hnodup : (readers search feeds hit f.id).Nodup :=
        ((List.Nodup.of_map _ hids).filter _).filter _
      rw [List.nodup_iff_count_eq_one.mp hnodup f hmem |>.symm]
      exact (List.count_eq_length.mpr fun g hg => (hsame f hf.mem g hg).symm).symm
    · exact hnone f hf.mem fun hpoll => (hpolled.mp hpoll).2.2 hrole
    · obtain ⟨g, hg, henabled⟩ := hdue ⟨e, he, hrole⟩
      rw [hf.unique hg, henabled] at hdisabled
      cases hdisabled
    · refine hnone f hf.mem fun hpoll => ?_
      rw [(hpolled.mp hpoll).2.1] at hdisabled
      cases hdisabled

def broadFeed : Feed := ⟨"logs-*", "logs", .events, true⟩

def narrowFeed : Feed := ⟨"logs-app-*", "logs-app", .events, true⟩

def searchOf (hit : Hit) (f : Feed) : List Hit := if f.covers hit.index then [hit] else []

/-- `CURSOR_DOC_ID` and `_CURSOR_KEY`: the legacy cursor of the single source. -/
def legacyCursor : List Char := ['p', 'r', 'i', 'm', 'a', 'r', 'y']

def cursorKey (source feed : List Char) : List Char :=
  if source = [] ∨ feed = [] then legacyCursor else source ++ ':' :: feed

/-- The characters of `[A-Za-z0-9_.:-]`. -/
def safeChar (c : Char) : Bool :=
  (decide ('A' ≤ c) && decide (c ≤ 'Z')) || (decide ('a' ≤ c) && decide (c ≤ 'z')) ||
    (decide ('0' ≤ c) && decide (c ≤ '9')) || c == '_' || c == '.' || c == ':' || c == '-'

/-- `re.sub` of every run of other characters by one underscore; the flag says that the run has
its underscore already. -/
def subUnsafe (inRun : Bool) : List Char → List Char
  | [] => []
  | c :: cs =>
    if safeChar c then c :: subUnsafe false cs
    else if inRun then subUnsafe true cs
    else '_' :: subUnsafe true cs

/-- The start of the document names of keyed cursors. -/
def feedMark : List Char := ['f', 'e', 'e', 'd', ':']

/-- `_doc_id` of the Elasticsearch store. -/
def docId (key : List Char) : List Char :=
  if key = [] ∨ key = legacyCursor then legacyCursor else feedMark ++ subUnsafe false key

/-- `_key` of the SQL store. -/
def sqlKey (key : List Char) : List Char :=
  if key = [] ∨ key = legacyCursor then legacyCursor else feedMark ++ key

/-- The ids of a configured feed.  Neither is blank: a connector without an id has the name of
its source type, and a feed without an id the slug of its pattern. -/
structure FeedIds where
  source : List Char
  feed : List Char
  source_ne : source ≠ []
  feed_ne : feed ≠ []

def FeedIds.key (p : FeedIds) : List Char := cursorKey p.source p.feed

/-- **The two feeds keep their cursors apart**: in both stores their documents differ, and
neither is the legacy one. -/
structure Apart (p q : FeedIds) : Prop where
  doc : docId p.key ≠ docId q.key
  sql : sqlKey p.key ≠ sqlKey q.key
  notLegacy : ∀ r, r = p ∨ r = q → docId r.key ≠ legacyCursor ∧ sqlKey r.key ≠ legacyCursor

/-- The second pair has moved the part `m` of the feed, up to a `:`, over to the source. -/
def Shifted (a b : List Char × List Char) : Prop :=
  ∃ m, b.1 = a.1 ++ ':' :: m ∧ a.2 = m ++ ':' :: b.2

def FeedIds.rewritten (p : FeedIds) : List Char × List Char :=
  (subUnsafe false p.source, subUnsafe false p.feed)

/-- **The ids are confused**: rewritten they are the same, or they differ only in the `:` at
which source and feed meet. -/
def Confused (p q : FeedIds) : Prop :=
  p.rewritten = q.rewritten ∨ Shifted p.rewritten q.rewritten ∨ Shifted q.rewritten p.rewritten

theorem join_eq_iff (a b : List Char × List Char) :
    a.1 ++ ':' :: a.2 = b.1 ++ ':' :: b.2 ↔ a = b ∨ Shifted a b ∨ Shifted b a := by
  constructor
  · intro h
    rcases List.append_eq_append_iff.mp h with ⟨m, hb, ha⟩ | ⟨m, ha, hb⟩
    · cases m with
      | nil =>
        left
        simp only [List.append_nil, List.nil_append, List.cons.injEq, true_and] at ha hb
        exact Prod.ext hb.symm ha
      | cons c m =>
        right
        left
        simp only [List.cons_append, List.cons.injEq] at ha
        obtain ⟨rfl, ha⟩ := ha
        exact ⟨m, hb, ha⟩
    · cases m with
      | nil =>
        left
        simp only [List.append_nil, List.nil_append, List.cons.injEq, true_and] at ha hb
        exact Prod.ext ha hb.symm
      | cons c m =>
        right
        right
        simp only [List.cons_append, List.cons.injEq] at hb
        obtain ⟨rfl, hb⟩ := hb
        exact ⟨m, ha, hb⟩
  · rintro (rfl | ⟨m, hb, ha⟩ | ⟨m, ha, hb⟩)
    · rfl
    · rw [hb, ha]
      simp
    · rw [hb, ha]
      simp

theorem subUnsafe_join (inRun : Bool) (xs ys : List Char) :
    subUnsafe inRun (xs ++ ':' :: ys) = subUnsafe inRun xs ++ ':' :: subUnsafe false ys := by
  induction xs generalizing inRun with
  | nil => simp [subUnsafe, show safeChar ':' = true by decide]
  | cons x xs ih =>
    simp only [List.cons_append, subUnsafe]
    by_cases hx : safeChar x = true
    · simp [hx, ih]
    · cases inRun <;> simp [hx, ih]

theorem FeedIds.key_eq (p : FeedIds) : p.key = p.source ++ ':' :: p.feed := by
  simp [FeedIds.key, cursorKey, p.source_ne, p.feed_ne]

theorem FeedIds.key_keyed (p : FeedIds) : ¬(p.key = [] ∨ p.key = legacyCursor) := by
  rw [p.key_eq]
  rintro (hnil | hlegacy)
  · simp at hnil
  · have hmem : ':' ∈ legacyCursor := hlegacy ▸ by simp
    exact absurd hmem (by decide)

theorem FeedIds.docId_eq (p : FeedIds) : docId p.key =
    feedMark ++ (p.rewritten.1 ++ ':' :: p.rewritten.2) := by
  rw [docId, if_neg p.key_keyed, p.key_eq, subUnsafe_join]
  rfl

theorem FeedIds.sqlKey_eq (p : FeedIds) : sqlKey p.key = feedMark ++ p.key := by
  rw [sqlKey, if_neg p.key_keyed]

theorem feedMark_append_ne (text : List Char) : feedMark ++ text ≠ legacyCursor := by
  simp [feedMark, legacyCursor]

/-- **Two feeds share no cursor document exactly if their ids are not confused.** -/
theorem apart_iff_not_confused (p q : FeedIds) : Apart p q ↔ ¬Confused p q := by
  have hconfused : Confused p q ↔ docId p.key = docId q.key := by
    rw [p.docId_eq, q.docId_eq, List.append_cancel_left_eq, join_eq_iff]
    rfl
  rw [hconfused]
  constructor
  · exact fun h => h.doc
  · intro hdoc
    constructor
    · exact hdoc
    · intro hsql
      rw [p.sqlKey_eq, q.sqlKey_eq, List.append_cancel_left_eq] at hsql
      exact hdoc (congrArg docId hsql)
    · rintro r -
      rw [r.docId_eq, r.sqlKey_eq]
      exact ⟨feedMark_append_ne _, feedMark_append_ne _⟩

/-- The feed `c` of the source `a:b` and the feed `b:c` of the source `a` share a cursor in both
stores. -/
theorem shifted_feeds_share_cursor :
    sqlKey (cursorKey ['a', ':', 'b'] ['c']) = sqlKey (cursorKey ['a'] ['b', ':', 'c']) ∧
      docId (cursorKey ['a', ':', 'b'] ['c']) = docId (cursorKey ['a'] ['b', ':', 'c']) ∧
      ¬Apart ⟨['a', ':', 'b'], ['c'], by decide, by decide⟩
        ⟨['a'], ['b', ':', 'c'], by decide, by decide⟩ := by
  refine ⟨by decide, by decide, fun h => h.doc ?_⟩
  decide

end AgenticKibana.Poll
