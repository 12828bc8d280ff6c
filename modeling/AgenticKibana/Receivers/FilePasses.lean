import AgenticKibana.Receivers.FileLines

/-!
# Every line once

A receiver that runs and is left alone gets to the end of every file.  With what it keeps
this gives the lines that come out: each one that ends after the first offset, once.
-/

namespace AgenticKibana.Receivers

open AgenticKibana.Library List
open AgenticKibana.Library.TextLines

/-! ### A pass that is left alone -/

def TailMove.Calm (move : TailMove) : Prop :=
  move = .pass ∨ move = .look ∨ move = .read true ∨ move = .emit true

def GoesOn (fromStart : Bool) (w w' : Tail) : Prop :=
  ∃ moves : List TailMove, (∀ move ∈ moves, move.Calm) ∧
    (tailMachine fromStart).run w moves = some w'

section Passes

variable {fromStart : Bool} {w w' w'' : Tail}

theorem GoesOn.refl (w : Tail) : GoesOn fromStart w w := by
  refine ⟨[], ?_, rfl⟩
  intro move hmove
  cases hmove

theorem GoesOn.trans (h : GoesOn fromStart w w') (h' : GoesOn fromStart w' w'') :
    GoesOn fromStart w w'' := by
  obtain ⟨moves, hcalm, hrun⟩ := h
  obtain ⟨moves', hcalm', hrun'⟩ := h'
  refine ⟨moves ++ moves', ?_, ?_⟩
  · intro move hmove
    rcases mem_append.mp hmove with hmem | hmem
    · exact hcalm move hmem
    · exact hcalm' move hmem
  · rw [Machine.run_append, hrun]
    exact hrun'

variable {move : TailMove}

theorem goesOn_step (hcalm : move.Calm) (hstep : tailStep fromStart w move = some w') :
    GoesOn fromStart w w' := by
  refine ⟨[move], ?_, ?_⟩
  · intro m hm
    rw [mem_singleton.mp hm]
    exact hcalm
  · exact Machine.run_cons.mpr ⟨w', hstep, rfl⟩

def Tail.Settled (w : Tail) (path : String) : Prop :=
  w.receiver.offsets.get? path = some (w.bytes path).length

theorem calm_step (hcalm : move.Calm) (hstep : tailStep fromStart w move = some w') :
    w'.files = w.files ∧
      ∀ path origin, w.origins.get? path = some origin → w'.origins.get? path = some origin := by
  rcases hcalm with rfl | rfl | rfl | rfl
  · dsimp only [tailStep] at hstep
    split at hstep
    · cases hstep
      exact ⟨rfl, fun _ _ h => h⟩
    · cases hstep
  · dsimp only [tailStep] at hstep
    split at hstep
    · split at hstep
      · cases hstep
        exact ⟨rfl, fun _ _ h => h⟩
      · cases hstep
        refine ⟨rfl, ?_⟩
        intro path origin horigin
        dsimp only
        rw [Dict.get?_setDefault]
        split
        · rename_i hpath
          rw [← hpath, horigin]
          rfl
        · exact horigin
    · cases hstep
  · dsimp only [tailStep] at hstep
    split at hstep
    · rw [if_pos rfl] at hstep
      cases hstep
      exact ⟨rfl, fun _ _ h => h⟩
    · cases hstep
  · dsimp only [tailStep] at hstep
    split at hstep
    · rw [if_pos rfl] at hstep
      cases hstep
      exact ⟨rfl, fun _ _ h => h⟩
    · cases hstep

theorem GoesOn.sound (h : GoesOn fromStart w w') (hsound : Sound fromStart w)
    (hlines : ∀ path, AtLine (w.bytes path)) :
    Sound fromStart w' ∧ w'.files = w.files ∧
      ∀ path origin, w.origins.get? path = some origin → w'.origins.get? path = some origin := by
  obtain ⟨moves, hcalm, hrun⟩ := h
  induction moves generalizing w with
  | nil =>
    cases hrun
    exact ⟨hsound, rfl, fun _ _ h => h⟩
  | cons move moves ih =>
    obtain ⟨v, hstep, hrest⟩ := Machine.run_cons.mp hrun
    have hmove := hcalm move mem_cons_self
    obtain ⟨hfiles, horigins⟩ := calm_step hmove hstep
    have hon : OnLines fromStart w move := by
      rcases hmove with rfl | rfl | rfl | rfl
      · trivial
      · exact fun path _ _ => hlines path
      · rfl
      · rfl
    have hlines' : ∀ path, AtLine (v.bytes path) := by
      intro path
      unfold Tail.bytes
      rw [hfiles]
      exact hlines path
    obtain ⟨hs, hf, ho⟩ := ih (hsound.step hon hstep) hlines'
      (fun m hm => hcalm m (mem_cons_of_mem _ hm)) hrest
    exact ⟨hs, hf.trans hfiles, fun path origin h => ho path origin (horigins path origin h)⟩

theorem goesOn_emit (fromStart : Bool) (r : Dict String Nat) (path : String)
    (lines : List Line) (todo : List String) (hw : w.receiver = ⟨r, emitPhase path lines todo⟩) :
    ∃ w', GoesOn fromStart w w' ∧ w'.files = w.files ∧ w'.receiver = ⟨r, .polling todo⟩ := by
  induction lines generalizing w with
  | nil => exact ⟨w, .refl w, rfl, hw⟩
  | cons line lines ih =>
    have hphase : w.receiver.phase = .emitting path line lines todo := by
      rw [hw]
      rfl
    have hstep : tailStep fromStart w (.emit true) = some { w with
        receiver := { w.receiver with phase := emitPhase path lines todo }
        emitted := w.emitted ++ [(path, line)] } := by
      dsimp only [tailStep]
      rw [hphase]
      rfl
    have hnext : ({ w with
        receiver := { w.receiver with phase := emitPhase path lines todo }
        emitted := w.emitted ++ [(path, line)] } : Tail).receiver =
          ⟨r, emitPhase path lines todo⟩ := by
      dsimp only
      rw [hw]
    obtain ⟨w', hgoes, hfiles, hend⟩ := ih hnext
    exact ⟨w', (goesOn_step (.inr (.inr (.inr rfl))) hstep).trans hgoes, hfiles, hend⟩

variable {path : String} {todo : List String}

theorem goesOn_read (fromStart : Bool) {offset size : Nat}
    (hphase : w.receiver.phase = .reading path offset size todo) :
    ∃ w', GoesOn fromStart w w' ∧ w'.files = w.files ∧
      w'.receiver = ⟨w.receiver.offsets.set path size, .polling todo⟩ := by
  have hstep : tailStep fromStart w (.read true) =
      some { w with receiver := w.receiver.read path (w.bytes path) offset size todo } := by
    dsimp only [tailStep]
    rw [hphase]
    rfl
  obtain ⟨w', hgoes, hfiles, hend⟩ := goesOn_emit fromStart
    (w := { w with receiver := w.receiver.read path (w.bytes path) offset size todo })
    _ _ _ _ rfl
  exact ⟨w', (goesOn_step (.inr (.inr (.inl rfl))) hstep).trans hgoes, hfiles, hend⟩

theorem look_eq (fromStart : Bool) (r : FileReceiver) (path : String) (size : Nat)
    (todo : List String) :
    r.look fromStart path size todo = ⟨r.offsets.set path size, .polling todo⟩ ∨
      ∃ offset, r.look fromStart path size todo =
        ⟨r.offsets, .reading path offset size todo⟩ := by
  unfold FileReceiver.look
  dsimp only
  generalize (if size < r.known fromStart path size then 0
    else r.known fromStart path size) = offset
  split
  · left
    rfl
  · right
    exact ⟨offset, rfl⟩

theorem goesOn_look (fromStart : Bool) (hphase : w.receiver.phase = .polling (path :: todo)) :
    ∃ w', GoesOn fromStart w w' ∧ w'.files = w.files ∧ w'.receiver.phase = .polling todo ∧
      (path ∈ w.files.keys → w'.Settled path) ∧ ∀ p, w.Settled p → w'.Settled p := by
  cases hfile : w.files.get? path with
  | none =>
    have hstep : tailStep fromStart w .look =
        some { w with receiver := { w.receiver with phase := .polling todo } } := by
      dsimp only [tailStep]
      rw [hphase]
      dsimp only
      rw [hfile]
    refine ⟨_, goesOn_step (.inr (.inl rfl)) hstep, rfl, rfl, ?_, fun _ h => h⟩
    intro hmem
    exact absurd hmem (Dict.get?_eq_none_iff.mp hfile)
  | some bytes =>
    have hbytes : w.bytes path = bytes := by
      unfold Tail.bytes
      rw [hfile]
      rfl
    have hstep : tailStep fromStart w .look = some { w with
        receiver := w.receiver.look fromStart path bytes.length todo
        origins := w.origins.setDefault path
          (w.receiver.known fromStart path bytes.length) } := by
      dsimp only [tailStep]
      rw [hphase]
      dsimp only
      rw [hfile]
    have hdone : ∃ w', GoesOn fromStart w w' ∧ w'.files = w.files ∧
        w'.receiver = ⟨w.receiver.offsets.set path bytes.length, .polling todo⟩ := by
      have hfirst := goesOn_step (.inr (.inl rfl)) hstep
      rcases look_eq fromStart w.receiver path bytes.length todo with hlook | ⟨offset, hlook⟩
      · rw [hlook] at hfirst
        exact ⟨_, hfirst, rfl, rfl⟩
      · rw [hlook] at hfirst
        obtain ⟨w', hgoes, hfiles, hend⟩ := goesOn_read fromStart
          (w := { w with
            receiver := ⟨w.receiver.offsets, .reading path offset bytes.length todo⟩
            origins := w.origins.setDefault path
              (w.receiver.known fromStart path bytes.length) }) rfl
        exact ⟨w', hfirst.trans hgoes, hfiles, hend⟩
    obtain ⟨w', hgoes, hfiles, hend⟩ := hdone
    have hsize : ∀ p, (w'.bytes p).length = (w.bytes p).length := by
      intro p
      unfold Tail.bytes
      rw [hfiles]
    refine ⟨w', hgoes, hfiles, by rw [hend], ?_, ?_⟩
    · intro _
      unfold Tail.Settled
      rw [hend, hsize, hbytes, Dict.get?_set_self]
    · intro p hp
      unfold Tail.Settled at hp ⊢
      rw [hend, hsize, Dict.get?_set]
      split
      · rename_i hpath
        rw [hpath, hbytes]
      · exact hp

theorem goesOn_poll (fromStart : Bool) (hphase : w.receiver.phase = .polling todo) :
    ∃ w', GoesOn fromStart w w' ∧ w'.files = w.files ∧ w'.receiver.phase = .polling [] ∧
      (∀ path ∈ todo, path ∈ w.files.keys → w'.Settled path) ∧
        ∀ p, w.Settled p → w'.Settled p := by
  induction todo generalizing w with
  | nil =>
    refine ⟨w, .refl w, rfl, hphase, ?_, fun _ h => h⟩
    intro path hpath
    cases hpath
  | cons path todo ih =>
    obtain ⟨v, hgoes, hfiles, hnext, hpath, hkeep⟩ := goesOn_look fromStart hphase
    obtain ⟨w', hgoes', hfiles', hend, htodo, hkeep'⟩ := ih hnext
    refine ⟨w', hgoes.trans hgoes', hfiles'.trans hfiles, hend, ?_, ?_⟩
    · intro p hp hmem
      rcases mem_cons.mp hp with rfl | hrest
      · exact hkeep' _ (hpath hmem)
      · exact htodo p hrest (by rw [hfiles]; exact hmem)
    · intro p hp
      exact hkeep' p (hkeep p hp)

/-- **A running receiver settles**: left alone, it ends a pass with every offset at the end. -/
theorem goesOn_settles (fromStart : Bool) (hrunning : w.receiver.phase ≠ .stopped) :
    ∃ w', GoesOn fromStart w w' ∧ w'.files = w.files ∧ w'.receiver.phase = .polling [] ∧
      ∀ path ∈ w.files.keys, w'.Settled path := by
  have hpolling : ∃ v todo, GoesOn fromStart w v ∧ v.files = w.files ∧
      v.receiver.phase = .polling todo := by
    cases hphase : w.receiver.phase with
    | stopped => exact absurd hphase hrunning
    | polling todo => exact ⟨w, todo, .refl w, rfl, hphase⟩
    | reading path offset size todo =>
      obtain ⟨v, hgoes, hfiles, hend⟩ := goesOn_read fromStart hphase
      exact ⟨v, todo, hgoes, hfiles, by rw [hend]⟩
    | emitting path line lines todo =>
      obtain ⟨v, hgoes, hfiles, hend⟩ := goesOn_emit fromStart
        w.receiver.offsets path (line :: lines) todo
        (by rw [← show _ = emitPhase path (line :: lines) todo from hphase])
      exact ⟨v, todo, hgoes, hfiles, by rw [hend]⟩
  obtain ⟨v, todo, hgoes, hfiles, hphase⟩ := hpolling
  obtain ⟨u, hgoes', hfiles', hidle, -, -⟩ := goesOn_poll fromStart hphase
  have hstep : tailStep fromStart u .pass =
      some { u with receiver := { u.receiver with phase := .polling (listing u.files) } } := by
    dsimp only [tailStep]
    rw [hidle]
  obtain ⟨w', hgoes'', hfiles'', hend, hsettled, -⟩ := goesOn_poll fromStart
    (w := { u with receiver := { u.receiver with phase := .polling (listing u.files) } }) rfl
  refine ⟨w', ((hgoes.trans hgoes').trans (goesOn_step (.inl rfl) hstep)).trans hgoes'', ?_, hend,
    ?_⟩
  · exact hfiles''.trans (hfiles'.trans hfiles)
  · intro path hmem
    have hkeys : path ∈ u.files.keys := by
      rw [hfiles', hfiles]
      exact hmem
    exact hsettled path (mem_listing.mpr hkeys) hkeys

end Passes

/-! ### The lines that come out -/

structure TailsLines (fromStart : Bool) (w : Tail) : Prop where
  /-- What came out is a beginning of what should. -/
  once : ∀ path origin, w.origins.get? path = some origin →
    w.emittedOf path <+: linesAfter origin (w.bytes path)
  /-- Nothing comes out of a file that was not looked at. -/
  unseen : ∀ path, w.origins.get? path = none → w.emittedOf path = []
  /-- All of it came out of a file that was read to its end. -/
  all : ∀ path origin, w.origins.get? path = some origin → w.Settled path →
    w.receiver.pendingOf path = [] → w.emittedOf path = linesAfter origin (w.bytes path)
  /-- The receiver gets there where it is left alone and the files end with a line. -/
  settles : w.receiver.phase ≠ .stopped → (∀ path, AtLine (w.bytes path)) →
    ∃ w', GoesOn fromStart w w' ∧ w'.files = w.files ∧
      (∀ path origin, w.origins.get? path = some origin → w'.origins.get? path = some origin) ∧
        ∀ path ∈ w.files.keys, ∃ origin, w'.origins.get? path = some origin ∧
          w'.emittedOf path = linesAfter origin (w.bytes path)

section Tailing

variable {fromStart : Bool} {w : Tail}

theorem Sound.emitted_eq (h : Sound fromStart w) {path : String} {origin : Nat}
    (horigin : w.origins.get? path = some origin) (hsettled : w.Settled path)
    (hpending : w.receiver.pendingOf path = []) :
    w.emittedOf path = linesAfter origin (w.bytes path) := by
  have hread := (h.files path).read origin horigin
  rw [show w.receiver.offsets.get? path = _ from hsettled, Option.getD_some] at hread
  rw [hread.linesAfter_eq, drop_length]
  unfold Tail.out
  rw [hpending, append_nil]
  exact (append_nil _).symm

/-- **Tailing emits every line once**: in a run where every size the receiver sees ends a line and
no emission fails. -/
theorem tailsLines_of_reaches
    (h : (tailMachine fromStart).Reaches (OnLines fromStart) w) : TailsLines fromStart w := by
  have hsound := sound_of_reaches h
  constructor
  · intro path origin horigin
    have hread := (hsound.files path).read origin horigin
    rw [hread.linesAfter_eq]
    unfold Tail.out
    rw [List.append_assoc]
    exact List.prefix_append _ _
  · intro path hunseen
    exact (List.append_eq_nil_iff.mp ((hsound.files path).unseen hunseen).2).1
  · intro path origin horigin hsettled hpending
    exact hsound.emitted_eq horigin hsettled hpending
  · intro hrunning hlines
    obtain ⟨w', hgoes, hfiles, hidle, hsettled⟩ := goesOn_settles fromStart hrunning
    obtain ⟨hsound', -, horigins⟩ := hgoes.sound hsound hlines
    refine ⟨w', hgoes, hfiles, horigins, ?_⟩
    intro path hmem
    have hoffset := hsettled path hmem
    obtain ⟨origin, horigin⟩ := Option.ne_none_iff_exists'.mp fun hnone => by
      have hunset := ((hsound'.files path).unseen hnone).1
      rw [show w'.receiver.offsets.get? path = _ from hoffset] at hunset
      cases hunset
    refine ⟨origin, horigin, ?_⟩
    have hpending : w'.receiver.pendingOf path = [] := by
      unfold FileReceiver.pendingOf
      rw [hidle]
    have hbytes : w'.bytes path = w.bytes path := by
      unfold Tail.bytes
      rw [hfiles]
    rw [hsound'.emitted_eq horigin hoffset hpending, hbytes]

def onLines (fromStart : Bool) (w : Tail) : TailMove → Bool
  | .append _ _ => true
  | .pass => true
  | .start => w.files.entries.all fun e =>
    decide (AtLine (e.2.take (firstOffset fromStart e.2.length)))
  | .look =>
    match w.receiver.phase with
    | .polling (path :: _) => decide (AtLine (w.bytes path))
    | _ => true
  | .read ok => ok
  | .emit ok => ok

theorem onLines_sound {move : TailMove} (h : onLines fromStart w move = true) :
    OnLines fromStart w move := by
  cases move with
  | append path bytes | pass => trivial
  | start =>
    intro path
    unfold Tail.bytes
    cases hfile : w.files.get? path with
    | none =>
      rw [Option.getD_none, take_nil]
      exact ended_nil
    | some bytes =>
      exact of_decide_eq_true (List.all_eq_true.mp h _ (Dict.get?_eq_some_iff.mp hfile))
  | look =>
    intro path todo hphase
    unfold onLines at h
    dsimp only at h
    rw [hphase] at h
    exact of_decide_eq_true h
  | read ok | emit ok => exact h

end Tailing

def unstarted (bytes : List UInt8) : Tail := { files := Dict.empty.set "f" bytes, receiver := {} }

theorem unstarted_start (fromStart : Bool) (bytes : List UInt8) :
    (tailMachine fromStart).start (unstarted bytes) :=
  ⟨rfl, rfl, rfl⟩

def wholeMoves : List TailMove :=
  [.start, .append "f" [97, 10, 98, 10], .pass, .look, .read true, .emit true, .emit true]

set_option maxRecDepth 10000 in
theorem tailsLines_of_two : ∃ w, w.emittedOf "f" = [['a'], ['b']] ∧ TailsLines false w := by
  have hrun : ((tailMachine false).runChecked (onLines false) (unstarted [120, 10]) wholeMoves).any
      (fun w => w.emittedOf "f" == [['a'], ['b']]) = true := by
    decide
  obtain ⟨w, hw, hend⟩ :=
    Machine.reaches_of_runChecked (fun _ _ => onLines_sound) (unstarted_start _ _) hrun
  exact ⟨w, beq_iff_eq.mp hend, tailsLines_of_reaches hw⟩

/-- A file with `ab`, read in a pass that ends before `c` and the end of the line are written. -/
def cutMoves : List TailMove :=
  [.start, .pass, .look, .read true, .emit true,
    .append "f" [99, 10], .pass, .look, .read true, .emit true]

set_option maxRecDepth 10000 in
theorem cutMoves_run : ((tailMachine true).run (unstarted [97, 98]) cutMoves).any
    (fun w => w.origins.get? "f" == some 0 && w.emittedOf "f" == [['a', 'b'], ['c']] &&
      linesAfter 0 (w.bytes "f") == [['a', 'b', 'c']]) = true := by
  decide

/-- A line that a pass cuts comes out in two pieces. -/
theorem line_cut_in_two :
    ¬ ∀ w, (tailMachine true).Reaches Machine.anyStep w → TailsLines true w := by
  intro h
  obtain ⟨w, -, hreach, hw⟩ := Machine.reaches_of_run _ _ _ _ (unstarted_start _ _) cutMoves_run
  simp only [Bool.and_eq_true, beq_iff_eq] at hw
  obtain ⟨⟨horigin, hemitted⟩, hlines⟩ := hw
  have honce := (h w hreach).once "f" 0 horigin
  rw [hemitted, hlines] at honce
  exact absurd honce (by decide)

end AgenticKibana.Receivers
