import AgenticKibana.Receivers.SyslogRecords

/-!
# Where an element ends, and what it is read as

The scanner counts the brackets that no backslash hides, wherever they stand.  It finds the end of
an element whose identifier and values open no bracket; any other element takes everything up to
some bracket of the message with it.  Every value is restored, and the parameters whose names are
words are found one by one.
-/

namespace AgenticKibana.Receivers

open AgenticKibana.Library List
open AgenticKibana.Library.TextLines

/-! ### The scanner, one character at a time -/

/-- The depth, and whether a backslash was just read; `none` when the element is closed. -/
def scanStep (s : Nat × Bool) (c : Char) : Option (Nat × Bool) :=
  if s.2 then some (s.1, false)
  else if c = '\\' then some (s.1, true)
  else if c = '[' then some (s.1 + 1, false)
  else if c = ']' then if s.1 = 1 then none else some (s.1 - 1, false)
  else some (s.1, false)

def scanRun (s : Nat × Bool) : Text → Option (Nat × Bool)
  | [] => some s
  | c :: cs => (scanStep s c).bind fun s' => scanRun s' cs

/-- `takeElement` on the way. -/
def takeFrom (s : Nat × Bool) : Text → Text × Text
  | [] => ([], [])
  | c :: cs =>
    match scanStep s c with
    | none => ([c], cs)
    | some s' => (c :: (takeFrom s' cs).1, (takeFrom s' cs).2)

theorem scanStep_plain {c : Char} (depth : Nat) (h : c ≠ '\\' ∧ c ≠ '[' ∧ c ≠ ']') :
    scanStep (depth, false) c = some (depth, false) := by
  simp [scanStep, h]

theorem takeElement_eq (depth : Nat) (text : Text) :
    takeElement depth text = takeFrom (depth, false) text := by
  fun_induction takeElement depth text with
  | case1 => rfl
  | case2 depth c rest m ih =>
    simp [takeFrom, scanStep, m, ih]
  | case3 depth rest m hhidden ih => simp [takeFrom, scanStep, m, ih]
  | case4 rest => simp [takeFrom, scanStep]
  | case5 depth rest hdepth m hhidden hopen ih => simp [takeFrom, scanStep, hdepth, m, ih]
  | case6 depth ch rest hhidden hopen hclose m ih =>
    by_cases hslash : ch = '\\'
    · subst hslash
      cases rest with
      | nil => simp [takeFrom, scanStep, m, ih]
      | cons c rest => exact absurd rfl (hhidden c rest rfl)
    · simp [takeFrom, scanStep, hslash, hopen, hclose, m, ih]

theorem scanRun_append (s : Nat × Bool) (a b : Text) :
    scanRun s (a ++ b) = (scanRun s a).bind fun s' => scanRun s' b := by
  induction a generalizing s with
  | nil => rfl
  | cons c a ih =>
    rw [List.cons_append, scanRun, scanRun]
    cases scanStep s c with
    | none => rfl
    | some s' => exact ih s'

variable {text : Text}

theorem takeFrom_append {s s' : Nat × Bool} (h : scanRun s text = some s') (rest : Text) :
    takeFrom s (text ++ rest) = (text ++ (takeFrom s' rest).1, (takeFrom s' rest).2) := by
  induction text generalizing s with
  | nil =>
    cases h
    rfl
  | cons c text ih =>
    rw [scanRun] at h
    cases hstep : scanStep s c with
    | none =>
      rw [hstep] at h
      cases h
    | some s1 =>
      rw [hstep] at h
      rw [List.cons_append, takeFrom, hstep]
      dsimp only
      rw [ih h]
      rfl

theorem takeFrom_split (s : Nat × Bool) (text : Text) :
    (takeFrom s text).1 ++ (takeFrom s text).2 = text := by
  induction text generalizing s with
  | nil => rfl
  | cons c text ih =>
    rw [takeFrom]
    split
    · rfl
    · rename_i s' _
      simp [ih s']

theorem length_takeFrom_lt (s : Nat × Bool) (h : text ≠ []) :
    (takeFrom s text).2.length < text.length := by
  cases text with
  | nil => exact absurd rfl h
  | cons c text =>
    rw [takeFrom]
    split
    · simp
    · rename_i s' _
      have hsplit := congrArg List.length (takeFrom_split s' text)
      rw [length_append] at hsplit
      rw [length_cons]
      dsimp only
      omega

theorem scanRun_plain {text : Text} (h : ∀ c ∈ text, c ≠ '\\' ∧ c ≠ '[' ∧ c ≠ ']')
    (depth : Nat) : scanRun (depth, false) text = some (depth, false) := by
  induction text with
  | nil => rfl
  | cons c text ih =>
    rw [scanRun, scanStep_plain depth (h c mem_cons_self)]
    exact ih fun x hx => h x (mem_cons_of_mem _ hx)

def openings : Text → Nat
  | '\\' :: _ :: cs => openings cs
  | '[' :: cs => openings cs + 1
  | _ :: cs => openings cs
  | [] => 0

def hidesNext : Text → Bool
  | '\\' :: _ :: cs => hidesNext cs
  | ['\\'] => true
  | _ :: cs => hidesNext cs
  | [] => false

theorem scanRun_open (h : ']' ∉ text) (depth : Nat) :
    scanRun (depth, false) text = some (depth + openings text, hidesNext text) := by
  induction text using List.twoStepInduction generalizing depth with
  | nil => rfl
  | singleton c =>
    have hc : c ≠ ']' := fun heq => h (heq ▸ mem_singleton_self c)
    by_cases hslash : c = '\\'
    · subst hslash
      rfl
    · by_cases hopen : c = '['
      · subst hopen
        rfl
      · simp [scanRun, scanStep_plain depth ⟨hslash, hopen, hc⟩, openings, hidesNext, hslash]
  | cons_cons c x rest ih ih' =>
    have hc : c ≠ ']' := fun heq => h (heq ▸ mem_cons_self)
    have hrest : ']' ∉ rest := fun hmem =>
      h (mem_cons_of_mem _ (mem_cons_of_mem _ hmem))
    have hrest' : ']' ∉ x :: rest := fun hmem => h (mem_cons_of_mem _ hmem)
    by_cases hslash : c = '\\'
    · subst hslash
      exact ih hrest depth
    · by_cases hopen : c = '['
      · subst hopen
        have hrun : scanRun (depth, false) ('[' :: x :: rest) =
            scanRun (depth + 1, false) (x :: rest) := rfl
        have hcount : openings ('[' :: x :: rest) = openings (x :: rest) + 1 := rfl
        rw [hrun, ih' x hrest', hcount, Nat.add_right_comm, Nat.add_assoc]
        rfl
      · have hrun : scanRun (depth, false) (c :: x :: rest) =
            scanRun (depth, false) (x :: rest) := by
          rw [scanRun, scanStep_plain depth ⟨hslash, hopen, hc⟩]
          rfl
        rw [hrun, ih' x hrest']
        simp [openings, hidesNext, hslash]

theorem scanRun_escapeSd (value : Text) (depth : Nat) :
    scanRun (depth, false) (escapeSd value) = some (depth + value.count '[', false) := by
  induction value generalizing depth with
  | nil => rfl
  | cons c value ih =>
    have hcons : escapeSd (c :: value) = escapeSdChar c ++ escapeSd value := flatMap_cons
    have hchar : scanRun (depth, false) (escapeSdChar c) =
        some (depth + if c = '[' then 1 else 0, false) := by
      unfold escapeSdChar
      split
      · rename_i hspecial
        rcases hspecial with rfl | rfl | rfl <;> rfl
      · rename_i hplain
        rw [not_or, not_or] at hplain
        by_cases hopen : c = '['
        · subst hopen
          rfl
        · simpa [hopen] using @scanRun_plain [c]
            (by simp [hplain.2.1, hplain.2.2, hopen]) depth
    rw [hcons, scanRun_append, hchar, Option.bind_some, ih, count_cons]
    by_cases hopen : c = '['
    · simp only [hopen, if_true, beq_self_eq_true]
      rw [Nat.add_assoc, Nat.add_comm 1]
    · simp [hopen]

/-! ### Elements -/

section Elements

variable {word : WordClass}

def SdElement.Worded (word : WordClass) (e : SdElement) : Prop :=
  ∀ param ∈ e.params, ∀ c ∈ param.1.text, word.holds c = true

/-- No bracket is open at the end of the element but its own: the identifier opens none and
does not hide the closing one, and no value holds one. -/
def SdElement.Closed (e : SdElement) : Prop :=
  openings e.id.text = 0 ∧ (e.params = [] → hidesNext e.id.text = false) ∧
    ∀ param ∈ e.params, '[' ∉ param.2

theorem plain_of_word {c : Char} (h : word.holds c = true) : c ≠ '\\' ∧ c ≠ '[' ∧ c ≠ ']' := by
  refine ⟨?_, ?_, ?_⟩ <;>
  · rintro rfl
    rw [word.ascii _ (by decide)] at h
    exact absurd h (by decide)

theorem scanRun_param {param : SdName × Text} (hname : ∀ c ∈ param.1.text, word.holds c = true)
    (s : Nat × Bool) :
    scanRun s (encodeParam param) = some (s.1 + param.2.count '[', false) := by
  have hblank : scanStep s ' ' = some (s.1, false) := by
    obtain ⟨depth, hidden⟩ := s
    cases hidden <;> rfl
  have hrest : encodeParam param =
      ' ' :: (param.1.text ++ (['=', '"'] ++ (escapeSd param.2 ++ ['"']))) := by
    simp [encodeParam]
  rw [hrest, scanRun, hblank, Option.bind_some, scanRun_append,
    scanRun_plain (fun c hc => plain_of_word (hname c hc)), Option.bind_some, scanRun_append,
    scanRun_plain (by simp), Option.bind_some, scanRun_append, scanRun_escapeSd,
    Option.bind_some, scanRun_plain (by simp)]

theorem scanRun_params {params : List (SdName × Text)}
    (hnames : ∀ param ∈ params, ∀ c ∈ param.1.text, word.holds c = true) (s : Nat × Bool) :
    scanRun s (params.flatMap encodeParam) =
      some (s.1 + (params.map fun param => param.2.count '[').sum,
        if params = [] then s.2 else false) := by
  induction params generalizing s with
  | nil => rfl
  | cons param params ih =>
    rw [flatMap_cons, scanRun_append, scanRun_param (hnames param mem_cons_self),
      Option.bind_some, ih fun p hp => hnames p (mem_cons_of_mem _ hp)]
    simp [Nat.add_assoc]

def SdElement.opened (e : SdElement) : Nat :=
  openings e.id.text + (e.params.map fun param => param.2.count '[').sum

def SdElement.unended (e : SdElement) : Bool :=
  if e.params = [] then hidesNext e.id.text else false

variable {e : SdElement}

theorem closed_iff : e.Closed ↔ e.opened = 0 ∧ e.unended = false := by
  have hsum : (e.params.map fun param => param.2.count '[').sum = 0 ↔
      ∀ param ∈ e.params, '[' ∉ param.2 := by
    rw [sum_eq_zero_iff, List.forall_mem_map]
    simp only [List.count_eq_zero]
  unfold SdElement.Closed SdElement.opened SdElement.unended
  rw [Nat.add_eq_zero_iff, hsum]
  by_cases hparams : e.params = []
  · simp [hparams]
  · simp [hparams]

theorem scanRun_body (he : e.Worded word) (depth : Nat) :
    scanRun (depth, false) ('[' :: e.id.text ++ e.encodeParams) =
      some (depth + 1 + e.opened, e.unended) := by
  have hid : ']' ∉ e.id.text := fun hmem => (e.id.allowed _ hmem).2.2.2.1 rfl
  have hopen : scanRun (depth, false) ('[' :: (e.id.text ++ e.encodeParams)) =
      scanRun (depth + 1, false) (e.id.text ++ e.encodeParams) := rfl
  rw [List.cons_append, hopen, scanRun_append, scanRun_open hid, Option.bind_some,
    SdElement.encodeParams, scanRun_params he]
  simp [SdElement.opened, SdElement.unended, Nat.add_assoc]

/-- **A closed element is taken by itself.** -/
theorem takeElement_closed (he : e.Worded word) (hclosed : e.Closed) (rest : Text) :
    takeElement 0 (e.encode ++ rest) = (e.encode, rest) := by
  obtain ⟨hopened, hunended⟩ := closed_iff.mp hclosed
  have hrun := scanRun_body he 0
  rw [hopened, hunended] at hrun
  have hencode : e.encode ++ rest = ('[' :: e.id.text ++ e.encodeParams) ++ ']' :: rest := by
    simp [SdElement.encode]
  rw [takeElement_eq, hencode, takeFrom_append hrun]
  simp [takeFrom, scanStep, SdElement.encode]

theorem scanRun_element (he : e.Worded word) (depth : Nat) (h : 1 ≤ depth ∨ ¬ e.Closed) :
    ∃ depth', 1 ≤ depth' ∧ scanRun (depth, false) e.encode = some (depth', false) := by
  have hrun := scanRun_body he depth
  rw [SdElement.encode, scanRun_append, hrun, Option.bind_some]
  cases hunended : e.unended with
  | true => exact ⟨depth + 1 + e.opened, by omega, rfl⟩
  | false =>
    have hdeep : 1 ≤ depth + e.opened := by
      rcases h with h | h
      · omega
      · have hopened : e.opened ≠ 0 := fun hzero => h (closed_iff.mpr ⟨hzero, hunended⟩)
        omega
    refine ⟨depth + e.opened, hdeep, ?_⟩
    have hne : depth + 1 + e.opened ≠ 1 := by omega
    have hpred : depth + 1 + e.opened - 1 = depth + e.opened := by omega
    simp [scanRun, scanStep, hne, hpred]

variable {elements : List SdElement}

theorem scanRun_elements (h : ∀ e ∈ elements, e.Worded word) {depth : Nat} (hdepth : 1 ≤ depth) :
    ∃ depth', 1 ≤ depth' ∧
      scanRun (depth, false) (elements.flatMap SdElement.encode) = some (depth', false) := by
  induction elements generalizing depth with
  | nil => exact ⟨depth, hdepth, rfl⟩
  | cons e elements ih =>
    obtain ⟨depth1, hdepth1, hrun⟩ := scanRun_element (h e mem_cons_self) depth (.inl hdepth)
    obtain ⟨depth2, hdepth2, hrest⟩ := ih (fun x hx => h x (mem_cons_of_mem _ hx)) hdepth1
    refine ⟨depth2, hdepth2, ?_⟩
    rw [flatMap_cons, scanRun_append, hrun, Option.bind_some, hrest]

/-- **An element that is not closed takes all elements behind it with it**, and something of
what follows them. -/
theorem takeElement_unclosed (he : e.Worded word) (h : ∀ e ∈ elements, e.Worded word)
    (hunclosed : ¬ e.Closed) (rest : Text) :
    ∃ s, takeElement 0 (e.encode ++ elements.flatMap SdElement.encode ++ rest) =
      (e.encode ++ elements.flatMap SdElement.encode ++ (takeFrom s rest).1,
        (takeFrom s rest).2) ∧ 1 ≤ s.1 ∧ s.2 = false := by
  obtain ⟨depth, hdepth, hrun⟩ := scanRun_element he 0 (.inr hunclosed)
  obtain ⟨depth', hdepth', hrest⟩ := scanRun_elements h hdepth
  refine ⟨(depth', false), ?_, hdepth', rfl⟩
  have hall : scanRun (0, false) (e.encode ++ elements.flatMap SdElement.encode) =
      some (depth', false) := by
    rw [scanRun_append, hrun, Option.bind_some, hrest]
  rw [takeElement_eq, takeFrom_append hall]

end Elements

/-! ### Values -/

theorem takeQuoted_escapeSd (value rest : Text) :
    takeQuoted (escapeSd value ++ '"' :: rest) = some (escapeSd value, rest) := by
  induction value with
  | nil => rfl
  | cons c value ih =>
    have hcons : escapeSd (c :: value) = escapeSdChar c ++ escapeSd value := List.flatMap_cons
    rw [hcons, List.append_assoc]
    unfold escapeSdChar
    split
    · rename_i hspecial
      have hlf : c ≠ '\n' := by rcases hspecial with rfl | rfl | rfl <;> decide
      change takeQuoted ('\\' :: c :: (escapeSd value ++ '"' :: rest)) = _
      rw [takeQuoted, if_neg hlf, ih]
      rfl
    · rename_i hplain
      rw [not_or, not_or] at hplain
      change takeQuoted (c :: (escapeSd value ++ '"' :: rest)) = _
      rw [takeQuoted, if_neg hplain.2.1, ih]
      · rfl
      · exact fun heq => hplain.1 heq
      · exact fun _ _ heq => absurd heq hplain.2.1

def escapeSdBlock (block : Block) : Block :=
  if block.2 = '"' ∨ block.2 = ']' then (2 * block.1 + 1, block.2) else (2 * block.1, block.2)

theorem escapeSd_cons (c : Char) (text : Text) :
    escapeSd (c :: text) = escapeSdChar c ++ escapeSd text :=
  flatMap_cons

theorem escapeSd_slashes (n : Nat) (rest : Text) :
    escapeSd (slashes n ++ rest) = slashes (2 * n) ++ escapeSd rest := by
  induction n with
  | zero => rfl
  | succ n ih =>
    rw [slashes_succ, cons_append, escapeSd_cons, ih,
      show 2 * (n + 1) = 2 * n + 1 + 1 by omega, slashes_succ, slashes_succ]
    rfl

theorem escapeSd_render {blocks : List Block} (h : Plain blocks) (tail : Nat) :
    escapeSd (render blocks tail) = render (blocks.map escapeSdBlock) (2 * tail) := by
  induction blocks with
  | nil =>
    have hslashes := escapeSd_slashes tail []
    rw [append_nil] at hslashes
    exact hslashes.trans (append_nil _)
  | cons block blocks ih =>
    obtain ⟨n, x⟩ := block
    have hx : x ≠ '\\' := h (n, x) mem_cons_self
    have htail := ih fun b hb => h b (mem_cons_of_mem _ hb)
    have hchar : slashes (2 * n) ++ escapeSdChar x =
        slashes (escapeSdBlock (n, x)).1 ++ [(escapeSdBlock (n, x)).2] := by
      unfold escapeSdChar escapeSdBlock
      by_cases hspecial : x = '"' ∨ x = ']'
      · rw [if_pos hspecial, if_pos (hspecial.imp_right .inr)]
        exact slashes_append_cons _ _
      · have hplain : ¬ (x = '"' ∨ x = '\\' ∨ x = ']') := by
          rintro (rfl | rfl | rfl)
          · exact hspecial (.inl rfl)
          · exact hx rfl
          · exact hspecial (.inr rfl)
        rw [if_neg hspecial, if_neg hplain]
    rw [render_cons, escapeSd_slashes, escapeSd_cons, htail, ← append_assoc, hchar,
      map_cons, append_assoc]
    exact (render_cons _ _ _ _).symm

theorem unescapeSd_block (n : Nat) (x : Char) :
    halveBlock (replaceBlock ']' ']' (replaceBlock '"' '"' (escapeSdBlock (n, x)))) = (n, x) := by
  unfold escapeSdBlock
  by_cases hquote : x = '"'
  · subst hquote
    simp (disch := decide) only [true_or, if_true, replaceBlock_hit, replaceBlock_miss,
      halveBlock_even]
  by_cases hbracket : x = ']'
  · subst hbracket
    simp (disch := decide) only [or_true, if_true, replaceBlock_hit, replaceBlock_miss,
      halveBlock_even]
  · rw [if_neg (not_or.mpr ⟨hquote, hbracket⟩), replaceBlock_miss _ hquote,
      replaceBlock_miss _ hbracket, halveBlock_even]

/-- **Every value is restored.** -/
theorem unescapeSd_escapeSd (value : Text) : unescapeSd (escapeSd value) = value := by
  obtain ⟨blocks, tail, hplain, rfl⟩ := exists_render value
  have hescaped : Plain (blocks.map escapeSdBlock) := by
    intro block hblock
    obtain ⟨b, hb, rfl⟩ := List.mem_map.mp hblock
    unfold escapeSdBlock
    split <;> exact hplain b hb
  have hquote : Plain ((blocks.map escapeSdBlock).map (replaceBlock '"' '"')) :=
    replaceBlock_plain (by decide) hescaped
  have hbracket := replaceBlock_plain (b := ']') (show ']' ≠ '\\' by decide) hquote
  have hhalf : (2 * tail + 1) / 2 = tail := by omega
  have hblocks : (((blocks.map escapeSdBlock).map (replaceBlock '"' '"')).map
      (replaceBlock ']' ']')).map halveBlock = blocks := by
    rw [List.map_map, List.map_map, List.map_map]
    conv_rhs => rw [← List.map_id blocks]
    exact List.map_congr_left fun b _ => unescapeSd_block b.1 b.2
  unfold unescapeSd
  rw [escapeSd_render hplain, replacePair_render (by decide) hescaped,
    replacePair_render (by decide) hquote, halve_render hbracket, hhalf, hblocks]

section Params

variable {word : WordClass}

theorem findParams_skip (text rest : Text) :
    findParams word text.length (text ++ rest) = findParams word 0 rest := by
  induction text with
  | nil => rfl
  | cons c text ih => exact ih

theorem findParams_blank (rest : Text) :
    findParams word 0 (' ' :: rest) = findParams word 0 rest := by
  have hword : word.holds ' ' = false := by
    rw [word.ascii ' ' (by decide)]
    decide
  have hmatch : matchParam word (' ' :: rest) = none := by
    simp [matchParam, hword]
  rw [findParams, hmatch]

theorem findParams_param {param : SdName × Text}
    (hname : ∀ c ∈ param.1.text, word.holds c = true) (rest : Text) :
    findParams word 0 (encodeParam param ++ rest) =
      (param.1.text, escapeSd param.2) :: findParams word 0 rest := by
  obtain ⟨name, value⟩ := param
  have hstop : word.holds '=' = false := by
    rw [word.ascii '=' (by decide)]
    decide
  have htext : encodeParam (name, value) ++ rest =
      ' ' :: (name.text ++ '=' :: '"' :: (escapeSd value ++ '"' :: rest)) := by
    simp [encodeParam]
  have hmatch : matchParam word (name.text ++ '=' :: '"' :: (escapeSd value ++ '"' :: rest)) =
      some (name.text, escapeSd value) := by
    have hdrop : (name.text ++ '=' :: '"' :: (escapeSd value ++ '"' :: rest)).dropWhile
        word.holds = '=' :: '"' :: (escapeSd value ++ '"' :: rest) := by
      rw [List.dropWhile_append_of_pos hname, List.dropWhile_cons, hstop]
      rfl
    have htake : (name.text ++ '=' :: '"' :: (escapeSd value ++ '"' :: rest)).takeWhile
        word.holds = name.text := by
      rw [List.takeWhile_append_of_pos hname, List.takeWhile_cons, hstop]
      exact List.append_nil _
    obtain ⟨c, cs, hcs⟩ := List.exists_cons_of_ne_nil name.nonempty
    have hread : matchParam word
        (name.text ++ '=' :: '"' :: (escapeSd value ++ '"' :: rest)) =
          (takeQuoted (escapeSd value ++ '"' :: rest)).map fun m => (c :: cs, m.1) := by
      unfold matchParam
      rw [hdrop, htake, hcs]
      rfl
    rw [hread, takeQuoted_escapeSd, hcs]
    rfl
  rw [htext, findParams_blank]
  obtain ⟨c, cs, hcs⟩ := exists_cons_of_ne_nil name.nonempty
  rw [hcs] at hmatch ⊢
  rw [cons_append] at hmatch ⊢
  rw [findParams, hmatch]
  dsimp only
  have hlength : (c :: cs).length + (escapeSd value).length + 2 =
      (cs ++ '=' :: '"' :: escapeSd value ++ ['"']).length := by
    simp only [length_append, length_cons, length_nil]
    omega
  have hsplit : cs ++ '=' :: '"' :: (escapeSd value ++ '"' :: rest) =
      (cs ++ '=' :: '"' :: escapeSd value ++ ['"']) ++ rest := by
    simp
  rw [hlength, hsplit, findParams_skip]

variable {e : SdElement}

/-- **The parameters of an element are found one by one.** -/
theorem findParams_encode (he : e.Worded word) :
    findParams word 0 e.encodeParams = e.params.map fun p => (p.1.text, escapeSd p.2) := by
  have hparams : ∀ params : List (SdName × Text),
      (∀ param ∈ params, ∀ c ∈ param.1.text, word.holds c = true) →
      findParams word 0 (params.flatMap encodeParam) =
        params.map fun p => (p.1.text, escapeSd p.2) := by
    intro params
    induction params with
    | nil => exact fun _ => rfl
    | cons param params ih =>
      intro hnames
      rw [flatMap_cons, findParams_param (hnames param mem_cons_self),
        ih fun p hp => hnames p (mem_cons_of_mem _ hp), map_cons]
  exact hparams e.params he

variable {text : Text}

theorem word_of_findParams {skip : Nat} {m : Text × Text} (h : m ∈ findParams word skip text) :
    ∀ c ∈ m.1, word.holds c = true := by
  induction text generalizing skip with
  | nil => cases skip <;> cases h
  | cons c text ih =>
    cases skip with
    | succ skip => exact ih h
    | zero =>
      rw [findParams] at h
      split at h
      · rename_i name value hmatch
        rcases mem_cons.mp h with rfl | h
        · unfold matchParam at hmatch
          split at hmatch
          · rename_i x name' rest htake hdrop
            cases htaken : takeQuoted rest with
            | none => simp [htaken] at hmatch
            | some v =>
              simp only [htaken, Option.map_some, Option.some.injEq, Prod.mk.injEq] at hmatch
              obtain ⟨rfl, -⟩ := hmatch
              intro y hy
              rw [← htake] at hy
              exact mem_takeWhile_imp hy
          · cases hmatch
        · exact ih h
      · exact ih h

/-! ### Elements -/

theorem not_space_of_allowed {c : Char} (h : 33 ≤ c.toNat ∧ c.toNat ≤ 126) : isSpace c = false := by
  unfold isSpace
  dsimp only
  simp only [Bool.or_eq_false_iff, Bool.and_eq_false_iff, decide_eq_false_iff_not,
    beq_eq_false_iff_ne]
  omega

def SdElement.read (e : SdElement) : Text × SdParams :=
  (e.id.text, Dict.ofList (e.params.map fun p => (p.1.text, p.2)))

theorem strip_append_blank (hne : text ≠ []) (h : Trimmed text) :
    strip (text ++ [' ']) = text := by
  have hhead : (text ++ [' ']).dropWhile isSpace = text ++ [' '] := by
    apply dropWhile_of_head
    intro c hc
    rw [head?_append_of_ne_nil _ hne] at hc
    exact h.1 c hc
  have hblank : isSpace ' ' = true := rfl
  unfold strip
  rw [hhead, reverse_append, reverse_singleton, singleton_append,
    dropWhile_cons, if_pos hblank, dropWhile_of_head, reverse_reverse]
  intro c hc
  rw [head?_reverse] at hc
  exact h.2 c hc

theorem SdName.unspaced (name : SdName) : ∀ c ∈ name.text, isSpace c = false := by
  intro c hc
  obtain ⟨hlow, hhigh, -⟩ := name.allowed c hc
  exact not_space_of_allowed ⟨hlow, hhigh⟩

theorem SdElement.encode_trimmed (e : SdElement) : Trimmed e.encode := by
  refine ⟨?_, ?_⟩
  · rintro c ⟨⟩
    rfl
  · intro c hc
    rw [SdElement.encode, getLast?_append_of_ne_nil _ (cons_ne_nil _ _)] at hc
    cases hc
    rfl

theorem encodeParams_cases (e : SdElement) :
    (e.params = [] ∧ e.encodeParams = []) ∨
      ∃ middle, e.encodeParams = ' ' :: middle ++ ['"'] := by
  unfold SdElement.encodeParams
  rcases List.eq_nil_or_concat' e.params with hnil | ⟨init, last, hlast⟩
  · exact .inl ⟨hnil, by rw [hnil]; rfl⟩
  · right
    rw [hlast, List.flatMap_append]
    cases init with
    | nil =>
      exact ⟨last.1.text ++ '=' :: '"' :: escapeSd last.2, by simp [encodeParam]⟩
    | cons first init =>
      refine ⟨first.1.text ++ '=' :: '"' :: escapeSd first.2 ++ ['"'] ++
        init.flatMap encodeParam ++ ' ' :: last.1.text ++ '=' :: '"' :: escapeSd last.2, ?_⟩
      simp [encodeParam]

theorem inner_trimmed (e : SdElement) : Trimmed (e.id.text ++ e.encodeParams) := by
  refine ⟨?_, ?_⟩
  · intro c hc
    rw [head?_append_of_ne_nil _ e.id.nonempty] at hc
    exact e.id.unspaced c (mem_of_mem_head? hc)
  · intro c hc
    rcases encodeParams_cases e with ⟨-, hnil⟩ | ⟨middle, hmiddle⟩
    · rw [hnil, append_nil] at hc
      exact e.id.unspaced c (mem_of_getLast? hc)
    · rw [hmiddle, ← append_assoc,
        getLast?_append_of_ne_nil _ (cons_ne_nil _ _)] at hc
      cases hc
      rfl

/-- **An element is read as it was written**, with a blank behind it or not. -/
theorem parseSdElement_encode (he : e.Worded word) {blank : Text}
    (hblank : blank = [] ∨ blank = [' ']) : parseSdElement word (e.encode ++ blank) = e.read := by
  have hne : e.encode ≠ [] := cons_ne_nil _ _
  have hstrip : strip (e.encode ++ blank) = e.encode := by
    rcases hblank with rfl | rfl
    · rw [append_nil]
      exact strip_of_trimmed e.encode_trimmed
    · exact strip_append_blank hne e.encode_trimmed
  have hhead : e.encode.head? = some '[' := rfl
  have hlast : e.encode.getLast? = some ']' :=
    getLast?_append_of_ne_nil _ (cons_ne_nil _ _)
  have hinner : e.encode.tail.dropLast = e.id.text ++ e.encodeParams := by
    rw [SdElement.encode, cons_append, cons_append, tail_cons]
    exact dropLast_concat
  have hid : ∀ c ∈ e.id.text, decide (c ≠ ' ') = true := by
    intro c hc
    refine decide_eq_true fun heq => ?_
    have hspace := e.id.unspaced c hc
    rw [heq] at hspace
    cases hspace
  have hrest : e.encodeParams.takeWhile (· ≠ ' ') = [] ∧
      e.encodeParams.dropWhile (· ≠ ' ') = e.encodeParams := by
    rcases encodeParams_cases e with ⟨-, hnil⟩ | ⟨middle, hmiddle⟩
    · rw [hnil]
      exact ⟨rfl, rfl⟩
    · rw [hmiddle]
      exact ⟨rfl, rfl⟩
  have htake : (e.id.text ++ e.encodeParams).takeWhile (· ≠ ' ') = e.id.text := by
    rw [takeWhile_append_of_pos hid, hrest.1, append_nil]
  have hdrop : (e.id.text ++ e.encodeParams).dropWhile (· ≠ ' ') = e.encodeParams := by
    rw [dropWhile_append_of_pos hid, hrest.2]
  have hfound : findParams word 0 (e.encodeParams.drop 1) =
      e.params.map fun p => (p.1.text, escapeSd p.2) := by
    rw [← findParams_encode he]
    rcases encodeParams_cases e with ⟨-, hnil⟩ | ⟨middle, hmiddle⟩
    · rw [hnil]
      rfl
    · rw [hmiddle]
      exact (findParams_blank _).symm
  have hnonempty : e.id.text ++ e.encodeParams ≠ [] :=
    append_ne_nil_of_left_ne_nil e.id.nonempty _
  have hread : sdInner (e.encode ++ blank) = e.id.text ++ e.encodeParams := by
    unfold sdInner
    dsimp only
    rw [hstrip, if_pos ⟨hhead, hlast⟩, hinner, strip_of_trimmed (inner_trimmed e)]
  unfold parseSdElement SdElement.read
  dsimp only
  rw [hread, if_neg hnonempty, htake, hdrop, hfound, map_map]
  congr 2
  exact map_congr_left fun p _ => Prod.ext rfl (unescapeSd_escapeSd p.2)

theorem word_of_parseSdElement {element name value : Text}
    (h : (name, value) ∈ (parseSdElement word element).2.entries) :
    ∀ c ∈ name, word.holds c = true := by
  unfold parseSdElement at h
  dsimp only at h
  split at h
  · cases h
  · have hmem := Dict.mem_of_get?_ofList (Dict.get?_eq_some_iff.mpr h)
    obtain ⟨m, hm, heq⟩ := mem_map.mp hmem
    obtain ⟨rfl, -⟩ := Prod.mk.inj heq
    exact word_of_findParams hm

end Params

end AgenticKibana.Receivers
