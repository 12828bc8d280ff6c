import AgenticKibana.Conversations.Archive

/-!
# What archiving keeps

A page never holds anything but the messages of its place, whoever wrote it.  What can go wrong is
that a page becomes shorter than what the row, or a run that is about to write the row, relies on.
-/

namespace AgenticKibana.Conversations

open AgenticKibana.Library List

abbrev Log := List (Text × Role)

/-! ### Soundness -/

structure WritingSound (log : Log) (row : Row) (pages : ArchivePages) (a : Archiver) (page : Nat)
    (items : List Message) : Prop where
  first : a.count / pageSize ≤ page
  belongs : items.map Message.tag <+: log.drop (page * pageSize)
  left : items ≠ [] → page * pageSize + items.length = a.reach
  finished : items = [] → a.reach ≤ page * pageSize
  written : a.count = row.count → ∀ q, a.count / pageSize ≤ q → q < page →
    ∃ kept, pages q = some kept ∧ min pageSize (a.reach - q * pageSize) ≤ kept.length

structure ArchiverSound (log : Log) (row : Row) (pages : ArchivePages) (a : Archiver) : Prop where
  count : a.count ≤ row.count
  moves : a.moved ≠ []
  moved : a.moved.map Message.tag <+: log.drop a.count
  stage : ∀ page items, a.stage = .write page items → WritingSound log row pages a page items

structure ArchiveSound (s : ArchiveStore) : Prop where
  count : s.row.count ≤ s.appended.length
  row : s.row.messages.map Message.tag = (s.appended.map Message.tag).drop s.row.count
  agrees : Pages.Agrees pageSize s.pages Message.tag (s.appended.map Message.tag)
  covers : Pages.Covers pageSize s.pages s.row.count
  runs : ∀ (run : Nat) (a : Archiver), s.archivers[run]? = some a →
    ArchiverSound (s.appended.map Message.tag) s.row s.pages a

section Steps

variable {enc : Encoding} {s s' : ArchiveStore} {log : Log} {row : Row} {pages : ArchivePages}
  {a : Archiver}

theorem pageSize_pos : 0 < pageSize := by decide

theorem prefix_drop_append {α : Type*} {xs ys : List α} {n : Nat} (h : xs <+: ys.drop n)
    (zs : List α) : xs <+: (ys ++ zs).drop n := by
  rw [drop_append]
  exact h.trans (prefix_append _ _)

theorem ArchiverSound.grow (h : ArchiverSound log row pages a) (more : Log)
    {row' : Row} (hcount : row'.count = row.count) : ArchiverSound (log ++ more) row' pages a where
  count := hcount ▸ h.count
  moves := h.moves
  moved := prefix_drop_append h.moved more
  stage page items hstage := by
    have hwriting := h.stage page items hstage
    refine ⟨hwriting.first, prefix_drop_append hwriting.belongs more, hwriting.left,
      hwriting.finished, ?_⟩
    intro heq
    exact hwriting.written (heq.trans hcount)

theorem ArchiveSound.append (h : ArchiveSound s) (question answer : Message) :
    ArchiveSound { s with
      row := { s.row with messages := trimMessages enc (s.row.messages ++ [question, answer]) }
      appended := s.appended ++ [question, answer] } where
  count := by
    dsimp only
    rw [length_append]
    exact h.count.trans (Nat.le_add_right _ _)
  row := by
    have hcount : s.row.count ≤ (s.appended.map Message.tag).length := by
      rw [length_map]
      exact h.count
    dsimp only
    rw [tags_trimMessages, map_append, h.row, map_append,
      drop_append_of_le_length hcount]
  agrees := by
    intro page items hitems
    dsimp only
    rw [map_append]
    exact prefix_drop_append (h.agrees page items hitems) _
  covers := h.covers
  runs := by
    intro run a ha
    dsimp only
    rw [map_append]
    exact (h.runs run a ha).grow _ rfl

theorem ArchiveSound.start (h : ArchiveSound s) (ha : archiverOf s.row = some a) :
    ArchiveSound { s with archivers := s.archivers ++ [a] } := by
  refine ⟨h.count, h.row, h.agrees, h.covers, ?_⟩
  intro run b hb
  dsimp only at hb
  by_cases hold : run < s.archivers.length
  · rw [List.getElem?_append_left hold] at hb
    exact h.runs run b hb
  · rw [List.getElem?_append_right (by omega), List.getElem?_singleton] at hb
    split at hb
    · cases hb
      unfold archiverOf at ha
      split at ha
      · cases ha
      · rename_i hlong
        dsimp only at ha
        split at ha
        · cases ha
        · rename_i hcut
          cases ha
          refine ⟨le_rfl, ?_, ?_, ?_⟩
          · -- something is moved
            intro hnil
            have hlength := congrArg List.length hnil
            dsimp only at hlength
            rw [length_archivedForm, length_take, length_nil] at hlength
            unfold archiveTrigger at hlong
            omega
          · dsimp only
            rw [tags_archivedForm, ← h.row]
            exact (List.take_prefix _ _).map _
          · intro page items hstage
            cases hstage
    · cases hb

variable {items : List Message}

theorem loadPage_eq_some (hagrees : Pages.Agrees pageSize pages Message.tag log)
    (hmoved : a.moved.map Message.tag <+: log.drop a.count) (h : loadPage pages a = some items) :
    items.map Message.tag <+: log.drop (a.count / pageSize * pageSize) ∧
      a.count / pageSize * pageSize + items.length = a.reach := by
  have hle : a.count / pageSize * pageSize ≤ a.count := Nat.div_mul_le_self _ _
  unfold loadPage at h
  dsimp only at h
  split at h
  · rename_i hoffset
    cases h
    have hpage : a.count / pageSize * pageSize = a.count := by omega
    rw [hpage]
    exact ⟨hmoved, rfl⟩
  · split at h
    · cases h
    · rename_i existing hexisting
      split at h
      · cases h
      · rename_i hlong
        cases h
        generalize hbase : a.count / pageSize * pageSize = base at hle hlong
        have hkept := hagrees _ existing hexisting
        rw [hbase] at hkept
        have hlength : (existing.take (a.count - base)).length = a.count - base := by
          rw [length_take]
          omega
        constructor
        · have htake : (existing.take (a.count - base)).map Message.tag =
              (log.drop base).take (a.count - base) := by
            rw [map_take]
            refine Pages.take_of_isPrefix hkept ?_
            rw [length_map]
            omega
          have hrest : log.drop a.count = (log.drop base).drop (a.count - base) := by
            rw [drop_drop]
            congr 1
            omega
          rw [map_append, htake]
          rw [hrest] at hmoved
          obtain ⟨more, hmore⟩ := hmoved
          refine ⟨more, ?_⟩
          rw [append_assoc, hmore, take_append_drop]
        · rw [length_append, hlength]
          unfold Archiver.reach
          omega

variable {run : Nat}

theorem getElem?_put {other : Nat} {b c : Archiver} (hrun : s.archivers[run]? = some b) :
    (s.put run a).archivers[other]? = some c →
      (other = run ∧ c = a) ∨ (other ≠ run ∧ s.archivers[other]? = some c) := by
  intro h
  unfold ArchiveStore.put at h
  dsimp only at h
  rw [List.getElem?_set] at h
  by_cases heq : run = other
  · rw [if_pos heq] at h
    subst heq
    have hlt := (List.getElem?_eq_some_iff.mp hrun).1
    rw [if_pos hlt] at h
    exact .inl ⟨rfl, (Option.some.inj h).symm⟩
  · rw [if_neg heq] at h
    exact .inr ⟨fun h' => heq h'.symm, h⟩

theorem ArchiveSound.load (h : ArchiveSound s) (ha : s.archivers[run]? = some a)
    (hitems : loadPage s.pages a = some items) :
    ArchiveSound (s.put run { a with stage := .write (a.count / pageSize) items }) := by
  refine ⟨h.count, h.row, h.agrees, h.covers, ?_⟩
  intro other b hb
  rcases getElem?_put ha hb with ⟨rfl, rfl⟩ | ⟨-, hold⟩
  · have hsound := h.runs other a ha
    obtain ⟨hleading, hreach⟩ := loadPage_eq_some h.agrees hsound.moved hitems
    refine ⟨hsound.count, hsound.moves, hsound.moved, ?_⟩
    intro page left hstage
    cases hstage
    refine ⟨le_rfl, hleading, fun _ => hreach, ?_, ?_⟩
    · rintro rfl
      exact hreach.ge
    · intro _ q hq hq'
      exact absurd (hq.trans_lt hq') (lt_irrefl _)
  · exact h.runs other b hold

variable {page : Nat}

/-- **A page is written**: nobody relies on more than what it holds now. -/
theorem ArchiveSound.write (h : ArchiveSound s) {m : Message} (ha : s.archivers[run]? = some a)
    (hstage : a.stage = .write page (m :: items)) (hkeeps : KeepsPages s (.write run)) :
    ArchiveSound
      { s.put run { a with stage := .write (page + 1) ((m :: items).drop pageSize) } with
        pages := Function.update s.pages page (some ((m :: items).take pageSize)) } := by
  obtain ⟨hrow, hothers⟩ := hkeeps a page (m :: items) ha hstage
  have hsound := h.runs run a ha
  have hwriting := hsound.stage page (m :: items) hstage
  generalize hlist : m :: items = list at hstage hrow hothers hwriting
  have hne : list ≠ [] := by
    rw [← hlist]
    exact cons_ne_nil _ _
  have hleft := hwriting.left hne
  have hlength : (list.take pageSize).length = min pageSize list.length := length_take
  refine ⟨h.count, h.row, ?_, ?_, ?_⟩
  · intro q kept hkept
    dsimp only at hkept
    by_cases hq : q = page
    · subst hq
      rw [Function.update_self] at hkept
      cases hkept
      rw [map_take]
      exact (List.take_prefix _ _).trans hwriting.belongs
    · rw [Function.update_of_ne hq] at hkept
      exact h.agrees q kept hkept
  · intro q hq
    by_cases hqp : q = page
    · subst hqp
      refine ⟨_, Function.update_self _ _ _, ?_⟩
      rw [hlength]
      exact le_min (min_le_left _ _) hrow
    · obtain ⟨kept, hkept, hreaches⟩ := h.covers q hq
      exact ⟨kept, (Function.update_of_ne hqp _ _).trans hkept, hreaches⟩
  · intro other b hb
    rcases getElem?_put ha hb with ⟨rfl, rfl⟩ | ⟨hother, hold⟩
    · refine ⟨hsound.count, hsound.moves, hsound.moved, ?_⟩
      intro page' left hstage'
      cases hstage'
      have hnext : (page + 1) * pageSize = page * pageSize + pageSize := Nat.succ_mul _ _
      refine ⟨hwriting.first.trans (Nat.le_succ _), ?_, ?_, ?_, ?_⟩
      · rw [map_drop, hnext, ← drop_drop]
        exact hwriting.belongs.drop _
      · intro hrest
        rw [length_drop, hnext]
        have hlong : pageSize < list.length := by
          by_contra hshort
          exact hrest (drop_eq_nil_of_le (by omega))
        change _ = a.reach
        omega
      · intro hrest
        have hshort := drop_eq_nil_iff.mp hrest
        rw [hnext]
        change a.reach ≤ _
        omega
      · intro hcount q hq hqp
        by_cases heq : q = page
        · subst heq
          refine ⟨_, Function.update_self _ _ _, ?_⟩
          rw [hlength]
          change min pageSize (a.reach - q * pageSize) ≤ _
          omega
        · obtain ⟨kept, hkept, hreaches⟩ := hwriting.written hcount q hq (by omega)
          exact ⟨kept, (Function.update_of_ne heq _ _).trans hkept, hreaches⟩
    · have hsound' := h.runs other b hold
      refine ⟨hsound'.count, hsound'.moves, hsound'.moved, ?_⟩
      intro page' left hstage'
      have hwriting' := hsound'.stage page' left hstage'
      refine ⟨hwriting'.first, hwriting'.belongs, hwriting'.left, hwriting'.finished, ?_⟩
      intro hcount q hq hqp
      by_cases heq : q = page
      · subst heq
        refine ⟨_, Function.update_self _ _ _, ?_⟩
        have hrelies : relies s.row q b = some b.reach := by
          unfold relies
          rw [hstage']
          exact if_pos ⟨hcount, hq, hqp⟩
        rw [hlength]
        exact le_min (min_le_left _ _) (hothers other b b.reach hother hold hrelies)
      · obtain ⟨kept, hkept, hreaches⟩ := hwriting'.written hcount q hq hqp
        exact ⟨kept, (Function.update_of_ne heq _ _).trans hkept, hreaches⟩

/-- **The row is written**: the pages reach as far as its new count. -/
theorem ArchiveSound.record (h : ArchiveSound s) (ha : s.archivers[run]? = some a)
    (hstage : a.stage = .write page []) :
    ArchiveSound { s.put run { a with stage := .done } with row := recordArchive s.row a } := by
  have hsound := h.runs run a ha
  have hwriting := hsound.stage page [] hstage
  unfold recordArchive
  dsimp only
  by_cases hrefused : s.row.count ≠ a.count ∨
      (s.row.messages.take a.moved.length).map Message.id ≠ a.ids
  · rw [if_pos hrefused]
    refine ⟨h.count, h.row, h.agrees, h.covers, ?_⟩
    intro other b hb
    rcases getElem?_put ha hb with ⟨rfl, rfl⟩ | ⟨-, hold⟩
    · refine ⟨hsound.count, hsound.moves, hsound.moved, ?_⟩
      intro page' items hstage'
      cases hstage'
    · exact h.runs other b hold
  · rw [if_neg hrefused]
    push Not at hrefused
    have hcount := hrefused.1.symm
    have hmoved : 0 < a.moved.length := length_pos_iff.mpr hsound.moves
    have hreach : a.reach ≤ s.appended.length := by
      have hle := hsound.moved.length_le
      rw [length_map, length_drop, length_map] at hle
      have hcountLe := h.count
      unfold Archiver.reach
      omega
    refine ⟨hreach, ?_, h.agrees, ?_, ?_⟩
    · dsimp only
      rw [map_drop, h.row, drop_drop, hcount]
      rfl
    · intro q hq
      dsimp only at hq ⊢
      have hfinished := hwriting.finished rfl
      by_cases hfirst : a.count / pageSize ≤ q
      · have hlt : q < page := by
          by_contra hge
          have hmul : page * pageSize ≤ q * pageSize := Nat.mul_le_mul_right _ (by omega)
          unfold Archiver.reach at hfinished
          omega
        exact hwriting.written hcount q hfirst hlt
      · -- a page before the one that holds the old count is full
        have hfull : q * pageSize + pageSize ≤ a.count := by
          have hmul : (q + 1) * pageSize ≤ a.count / pageSize * pageSize :=
            Nat.mul_le_mul_right _ (by omega)
          have hle := Nat.div_mul_le_self a.count pageSize
          rw [Nat.succ_mul] at hmul
          omega
        have hpos := pageSize_pos
        obtain ⟨kept, hkept, hreaches⟩ := h.covers q (by omega)
        exact ⟨kept, hkept, by omega⟩
    · intro other b hb
      rcases getElem?_put ha hb with ⟨rfl, rfl⟩ | ⟨-, hold⟩
      · refine ⟨?_, hsound.moves, hsound.moved, ?_⟩
        · exact Nat.le_add_right _ _
        · intro page' items hstage'
          cases hstage'
      · have hsound' := h.runs other b hold
        have hlt : b.count < a.count + a.moved.length := by
          have hle := hsound'.count
          omega
        refine ⟨hlt.le, hsound'.moves, hsound'.moved, ?_⟩
        intro page' items hstage'
        have hwriting' := hsound'.stage page' items hstage'
        refine ⟨hwriting'.first, hwriting'.belongs, hwriting'.left, hwriting'.finished, ?_⟩
        intro heq
        dsimp only at heq
        omega

/-- **One step** that shortens no page that is relied on keeps the store sound. -/
theorem ArchiveSound.step (h : ArchiveSound s) {move : ArchiveMove} (hkeeps : KeepsPages s move)
    (hstep : archiveStep enc s move = some s') : ArchiveSound s' := by
  cases move with
  | append question answer =>
    dsimp only [archiveStep] at hstep
    split at hstep
    · cases hstep
      exact h.append question answer
    · cases hstep
  | start =>
    obtain ⟨a, ha, rfl⟩ := Option.map_eq_some_iff.mp hstep
    exact h.start ha
  | load run =>
    obtain ⟨a, ha, hstep⟩ := Option.bind_eq_some_iff.mp hstep
    split at hstep
    · obtain ⟨items, hitems, rfl⟩ := Option.map_eq_some_iff.mp hstep
      exact h.load ha hitems
    · cases hstep
  | write run =>
    obtain ⟨a, ha, hstep⟩ := Option.bind_eq_some_iff.mp hstep
    split at hstep
    · rename_i page m items hstage
      cases hstep
      exact h.write ha hstage hkeeps
    · cases hstep
  | record run =>
    obtain ⟨a, ha, hstep⟩ := Option.bind_eq_some_iff.mp hstep
    split at hstep
    · rename_i page hstage
      cases hstep
      exact h.record ha hstage
    · cases hstep

theorem ArchiveSound.of_start (h : (archiveMachine enc).start s) : ArchiveSound s := by
  obtain ⟨hcount, hruns, hpages, happended⟩ := h
  refine ⟨?_, ?_, ?_, ?_, ?_⟩
  · rw [hcount]
    exact Nat.zero_le _
  · rw [hcount, happended]
    rfl
  · intro page items hitems
    rw [hpages page] at hitems
    cases hitems
  · intro page hpage
    rw [hcount] at hpage
    exact absurd hpage (Nat.not_lt_zero _)
  · intro run a ha
    rw [hruns] at ha
    cases ha

/-- **The transcript is what was appended.** -/
theorem ArchiveSound.transcript (h : ArchiveSound s) :
    s.transcript.map Message.tag = s.appended.map Message.tag := by
  have hcount : s.row.count ≤ (s.appended.map Message.tag).length := by
    rw [length_map]
    exact h.count
  unfold ArchiveStore.transcript
  rw [map_append, Pages.map_slice pageSize_pos h.covers h.agrees hcount, h.row, Nat.min_self,
    drop_zero, take_append_drop]

/-- **No message is lost**: in a run where no page is overwritten with fewer messages than are
relied on, the archived messages and those of the row are the appended ones in their order, and the
pages reach as far as the count of the row. -/
theorem appended_kept (h : (archiveMachine enc).Reaches KeepsPages s) :
    s.transcript.map Message.tag = s.appended.map Message.tag ∧
      Pages.Covers pageSize s.pages s.row.count := by
  have hsound : ArchiveSound s :=
    Machine.invariant (I := ArchiveSound) (fun _ hstart => .of_start hstart)
      (fun _ _ _ hI hP ht => hI.step hP ht) h
  exact ⟨hsound.transcript, hsound.covers⟩

end Steps

/-! ### Two processes -/

def plainEncoding : Encoding where
  size m := m.content.length
  downgrade := id

def shortExchange (id : Char) : List Message :=
  [⟨[id], .user, ['?'], [], none⟩, ⟨[id], .assistant, ['!'], [], none⟩]

def fullRow : ArchiveStore where
  row := ⟨(List.replicate 71 (shortExchange 'a')).flatten, 0, none⟩
  appended := (List.replicate 71 (shortExchange 'a')).flatten

theorem fullRow_start : (archiveMachine plainEncoding).start fullRow :=
  ⟨rfl, rfl, fun _ => rfl, rfl⟩

def appendExchange : ArchiveMove :=
  .append ⟨['b'], .user, ['?'], [], none⟩ ⟨['b'], .assistant, ['!'], [], none⟩

def keepsPages (s : ArchiveStore) : ArchiveMove → Bool
  | .write run =>
    match s.archivers[run]? with
    | none => true
    | some a =>
      match a.stage with
      | .write page items =>
        decide (min pageSize (s.row.count - page * pageSize) ≤ items.length) &&
          (List.range s.archivers.length).all fun other =>
            other == run || match s.archivers[other]?.bind (relies s.row page) with
              | none => true
              | some reach => decide (min pageSize (reach - page * pageSize) ≤ items.length)
      | _ => true
  | _ => true

theorem keepsPages_sound {s : ArchiveStore} {move : ArchiveMove} (h : keepsPages s move = true) :
    KeepsPages s move := by
  cases move with
  | write run =>
    intro a page items ha hstage
    dsimp only [keepsPages] at h
    rw [ha] at h
    dsimp only at h
    rw [hstage] at h
    dsimp only at h
    rw [Bool.and_eq_true, decide_eq_true_eq, all_eq_true] at h
    refine ⟨h.1, ?_⟩
    intro other b reach hother hb hrelies
    have hlt := (List.getElem?_eq_some_iff.mp hb).1
    have hall := h.2 other (mem_range.mpr hlt)
    rw [hb, Option.bind_some, hrelies, Bool.or_eq_true, beq_iff_eq] at hall
    rcases hall with heq | hle
    · exact absurd heq hother
    · exact of_decide_eq_true hle
  | _ => trivial

set_option maxRecDepth 100000 in
/-- Two processes read the row; the second writes the page again, and finds the row archived. -/
theorem appended_kept_of_two_runs : ∃ s : ArchiveStore, s.row.count = 42 ∧
    s.transcript.map Message.tag = s.appended.map Message.tag ∧
      Pages.Covers pageSize s.pages s.row.count := by
  have hrun : ((archiveMachine plainEncoding).runChecked keepsPages fullRow
      [.start, .start, .load 0, .write 0, .record 0, appendExchange, .load 1, .write 1,
        .record 1]).any (fun s => s.row.count == 42) = true := by
    decide
  obtain ⟨s, hs, hend⟩ :=
    Machine.reaches_of_runChecked (fun _ _ => keepsPages_sound) fullRow_start hrun
  exact ⟨s, beq_iff_eq.mp hend, appended_kept hs⟩

set_option maxRecDepth 100000 in
/-- A process that read the row earlier writes its page later: two messages that are counted are on
no page. -/
theorem archived_messages_lost : ∃ s : ArchiveStore,
    (archiveMachine plainEncoding).Reaches Machine.anyStep s ∧
      s.transcript.map Message.tag ≠ s.appended.map Message.tag := by
  have hrun : ((archiveMachine plainEncoding).run fullRow
      [.start, appendExchange, .start, .load 1, .write 1, .record 1, .load 0, .write 0]).any
        (fun s => s.transcript.length != s.appended.length) = true := by
    decide
  obtain ⟨s, -, hs, hend⟩ := Machine.reaches_of_run _ _ _ _ fullRow_start hrun
  refine ⟨s, hs, ?_⟩
  intro heq
  have hlength := congrArg List.length heq
  rw [length_map, length_map] at hlength
  rw [hlength, bne_self_eq_false] at hend
  cases hend

end AgenticKibana.Conversations
