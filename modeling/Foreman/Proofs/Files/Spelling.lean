import Foreman.Proofs.Files.Walk

namespace Foreman.Path

-- The names between the slashes of a text. Empty ones and single dots do not count, and two dots
-- are a name like any other.
def names (text : String) : List String :=
  ((text.toList.splitOn '/').map String.ofList).filter (fun name => name != "" && name != ".")

-- A text that does not begin with a slash goes on from the working directory.
def grounded (cwd text : String) : String :=
  if text.toList.head? = some '/' then text else cwd ++ "/" ++ text

-- The names a text comes down to. The empty text comes down to nothing, not even to no names.
def normalForm (cwd text : String) : Option (List String) :=
  if text = "" then none else some (names (grounded cwd text))

-- The absolute spelling of a text.
def spellOut (cwd text : String) : String := ((ofText text).absolute (names cwd)).text

variable {steps : List String} {text : String} {cs : List Char}

theorem pieces_eq_splitOn (cs : List Char) : pieces cs = cs.splitOn '/' := by
  induction cs with
  | nil => rfl
  | cons c cs ih =>
    rw [List.splitOn_cons_eq_if_modifyHead]
    by_cases hc : c = '/'
    · subst hc
      simp [pieces, ih]
    · rw [if_neg (by simpa using hc)]
      unfold pieces
      split
      · rename_i heq
        cases heq
      · rename_i rest heq
        exact absurd (List.cons.inj heq).1 hc
      · rename_i d rest _ heq
        obtain ⟨rfl, rfl⟩ := List.cons.inj heq
        rw [ih]
        cases hsplit : cs.splitOn '/' with
        | nil => exact absurd hsplit (List.splitOn_ne_nil _ _)
        | cons piece others => rfl

theorem isStep_iff (piece : List Char) :
    isStep piece = (String.ofList piece != "" && String.ofList piece != ".") := by
  have hempty : String.ofList piece = "" ↔ piece = [] := by
    rw [show "" = String.ofList [] from rfl, String.ofList_inj]
  rw [Bool.eq_iff_iff]
  simp [isStep, hempty, ofList_eq_dot_iff]

theorem stepsOf_toList (text : String) : stepsOf text.toList = names text := by
  simp only [stepsOf, names, pieces_eq_splitOn, List.filter_map]
  congr 2
  funext piece
  exact isStep_iff piece

theorem names_append_slash (first second : String) :
    names (first ++ "/" ++ second) = names first ++ names second := by
  have hchars : (first ++ "/" ++ second).toList = first.toList ++ '/' :: second.toList := by
    simp
  simp only [names, hchars, List.splitOn_append_cons_self, List.map_append, List.filter_append]

theorem startOf_eq_here_iff (cs : List Char) : startOf cs = .here ↔ cs.head? ≠ some '/' := by
  cases cs with
  | nil => simp [startOf]
  | cons c cs =>
    by_cases hc : c = '/'
    · subst hc
      refine iff_of_false ?_ (by simp)
      unfold startOf
      split <;> simp_all
    · simp [startOf, hc]

theorem ofText_of_ne_nil (h : text.toList ≠ []) : ofText text =
    along (startOf text.toList) (stepsOf text.toList) (endingOf text.toList) := by
  unfold ofText
  split
  · rename_i hnil
    exact absurd hnil h
  · rfl

-- Where a path leads is the normal form of the text it was read from.
theorem normal_ofText (cwd text : String) :
    (ofText text).normal (names cwd) = normalForm cwd text := by
  by_cases hempty : text = ""
  · subst hempty
    rfl
  · have hchars : text.toList ≠ [] := by simpa using hempty
    rw [ofText_of_ne_nil hchars, stepsOf_toList, normalForm, if_neg hempty, grounded]
    by_cases hslash : text.toList.head? = some '/'
    · rw [if_pos hslash]
      have hstart : startOf text.toList ≠ .here := fun h => (startOf_eq_here_iff _).mp h hslash
      cases hs : startOf text.toList with
      | here => exact absurd hs hstart
      | root => rfl
      | doubleRoot => rfl
    · rw [if_neg hslash, (startOf_eq_here_iff _).mpr hslash, names_append_slash]
      rfl

theorem absolute_absolute (home elsewhere : List String) (p : Path) :
    (p.absolute home).absolute elsewhere = p.absolute home := by
  cases p with
  | nowhere => rfl
  | along start steps ending => cases start <;> rfl

-- What stands between two slashes and is not left out.
def IsName (name : String) : Prop := '/' ∉ name.toList ∧ isStep name.toList = true

theorem slash_not_mem_pieces {piece : List Char} (h : piece ∈ pieces cs) : '/' ∉ piece := by
  induction cs generalizing piece with
  | nil => simp_all [pieces]
  | cons c cs ih =>
    by_cases hc : c = '/'
    · subst hc
      rcases List.mem_cons.mp h with rfl | hrest
      · exact List.not_mem_nil
      · exact ih hrest
    · have hpieces : pieces (c :: cs) = (pieces cs).modifyHead (c :: ·) := by
        rw [pieces_eq_splitOn, pieces_eq_splitOn, List.splitOn_cons_eq_if_modifyHead,
          if_neg (by simpa using hc)]
      rw [hpieces] at h
      cases hcs : pieces cs with
      | nil => simp [hcs] at h
      | cons first others =>
        rw [hcs, List.modifyHead_cons] at h
        rcases List.mem_cons.mp h with rfl | hrest
        · have hfirst : '/' ∉ first := ih (hcs ▸ List.mem_cons_self)
          simpa [hfirst] using Ne.symm hc
        · exact ih (hcs ▸ List.mem_cons_of_mem _ hrest)

theorem isName_of_mem_names {name : String} (h : name ∈ names text) : IsName name := by
  rw [← stepsOf_toList, stepsOf] at h
  obtain ⟨piece, hpiece, rfl⟩ := List.mem_map.mp h
  obtain ⟨hsplit, hstep⟩ := List.mem_filter.mp hpiece
  rw [IsName, String.toList_ofList]
  exact ⟨slash_not_mem_pieces hsplit, hstep⟩

-- What a spelling has behind its root: its names, with a slash between any two and perhaps one
-- behind the last.
def tailOf (steps : List String) (ending : Ending) : List Char :=
  ['/'].intercalate (steps.map String.toList) ++ if ending = .slash ∧ steps ≠ [] then ['/'] else []

theorem toList_text (start : Start) (steps : List String) (ending : Ending) :
    (along start steps ending).text.toList = (startText start).toList ++ tailOf steps ending := by
  have hslash : "/".toList = ['/'] := rfl
  simp only [text, tailOf, String.toList_append, String.toList_intercalate, hslash,
    List.append_assoc]
  congr 2
  split <;> rfl

theorem pieces_tailOf (hsteps : steps ≠ []) (hnames : ∀ step ∈ steps, IsName step)
    (ending : Ending) : pieces (tailOf steps ending) =
      steps.map String.toList ++ if ending = .slash then [[]] else [] := by
  have hne : steps.map String.toList ≠ [] := by simpa using hsteps
  have hfree : ∀ piece ∈ steps.map String.toList, '/' ∉ piece := by
    intro piece hpiece
    obtain ⟨step, hstep, rfl⟩ := List.mem_map.mp hpiece
    exact (hnames step hstep).1
  have hjoined : (['/'].intercalate (steps.map String.toList)).splitOn '/' =
      steps.map String.toList := List.splitOn_intercalate '/' hfree hne
  rw [pieces_eq_splitOn, tailOf]
  by_cases hslash : ending = .slash
  · rw [if_pos ⟨hslash, hsteps⟩, if_pos hslash, List.splitOn_append_cons_self, hjoined]
    rfl
  · rw [if_neg (fun h => hslash h.1), if_neg hslash, List.append_nil, List.append_nil, hjoined]

theorem head?_tailOf (hnames : ∀ step ∈ steps, IsName step) (ending : Ending) :
    (tailOf steps ending).head? ≠ some '/' := by
  cases steps with
  | nil => simp [tailOf]
  | cons step rest =>
    obtain ⟨hfree, hstep⟩ := hnames step List.mem_cons_self
    cases hchars : step.toList with
    | nil => simp [hchars, isStep] at hstep
    | cons c cs =>
      have hc : c ≠ '/' := by
        rintro rfl
        exact hfree (hchars ▸ List.mem_cons_self)
      cases rest with
      | nil => simpa [tailOf, hchars] using hc
      | cons next rest => simpa [tailOf, hchars, List.intercalate_cons_cons] using hc

theorem stepsOf_tailOf (hnames : ∀ step ∈ steps, IsName step) (ending : Ending) :
    stepsOf (tailOf steps ending) = steps := by
  by_cases hsteps : steps = []
  · subst hsteps
    simp [stepsOf, tailOf, pieces, isStep]
  · have hkept : (steps.map String.toList).filter isStep = steps.map String.toList := by
      rw [List.filter_eq_self]
      intro piece hpiece
      obtain ⟨step, hstep, rfl⟩ := List.mem_map.mp hpiece
      exact (hnames step hstep).2
    have hend : (if ending = .slash then [[]] else [] : List (List Char)).filter isStep = [] := by
      split <;> rfl
    rw [stepsOf, pieces_tailOf hsteps hnames, List.filter_append, hkept, hend, List.append_nil,
      List.map_map]
    simp [Function.comp_def]

theorem endingOf_tailOf (hsteps : steps ≠ []) (hnames : ∀ step ∈ steps, IsName step)
    (ending : Ending) : endingOf (tailOf steps ending) = .slash ↔ ending = .slash := by
  rw [endingOf, pieces_tailOf hsteps hnames]
  by_cases hslash : ending = .slash
  · rw [if_pos hslash, List.getLast?_concat]
    exact iff_of_true rfl hslash
  · rw [if_neg hslash, List.append_nil, List.getLast?_map]
    obtain ⟨last, hlast⟩ := Option.isSome_iff_exists.mp (List.getLast?_isSome.mpr hsteps)
    have hstep := (hnames last (List.mem_of_getLast? hlast)).2
    rw [hlast, Option.map_some]
    refine iff_of_false ?_ hslash
    split
    · rename_i hempty
      rw [Option.some_inj.mp hempty] at hstep
      cases hstep
    · simp
    · simp

-- The slashes in front of a spelling tell where it sets out from, and nothing else.
theorem startOf_append {start : Start} (hstart : start ≠ .here) (hhead : cs.head? ≠ some '/') :
    startOf ((startText start).toList ++ cs) = start ∧
      stepsOf ((startText start).toList ++ cs) = stepsOf cs ∧
      endingOf ((startText start).toList ++ cs) = endingOf cs := by
  have hpieces : pieces cs ≠ [] := by
    rw [pieces_eq_splitOn]
    exact List.splitOn_ne_nil _ _
  have hlast : ∀ front : List (List Char), (front ++ pieces cs).getLast? = (pieces cs).getLast? :=
    fun front => by rw [List.getLast?_append, Option.or_of_isSome (List.getLast?_isSome.mpr hpieces)]
  cases start with
  | here => exact absurd rfl hstart
  | root =>
    have hchars : (startText .root).toList ++ cs = '/' :: cs := rfl
    have hsplit : pieces ('/' :: cs) = [[]] ++ pieces cs := rfl
    refine ⟨?_, ?_, ?_⟩
    · rw [hchars]
      cases cs with
      | nil => rfl
      | cons c cs =>
        have hc : c ≠ '/' := by simpa using hhead
        simp [startOf, hc]
    · rw [hchars, stepsOf, hsplit, List.filter_append]
      rfl
    · rw [hchars, endingOf, hsplit, hlast]
      rfl
  | doubleRoot =>
    have hchars : (startText .doubleRoot).toList ++ cs = '/' :: '/' :: cs := rfl
    have hsplit : pieces ('/' :: '/' :: cs) = [[], []] ++ pieces cs := rfl
    refine ⟨?_, ?_, ?_⟩
    · rw [hchars]
      cases cs with
      | nil => rfl
      | cons c cs =>
        have hc : c ≠ '/' := by simpa using hhead
        simp [startOf, hc]
    · rw [hchars, stepsOf, hsplit, List.filter_append]
      rfl
    · rw [hchars, endingOf, hsplit, hlast]
      rfl

-- A spelling with a root is read as the path it was made of. Only whether it ends in a slash can
-- be told from it, and not whether it ended in a dot.
theorem ofText_text {start : Start} (hstart : start ≠ .here)
    (hnames : ∀ step ∈ steps, IsName step) (ending : Ending) :
    ∃ last, ofText (along start steps ending).text = along start steps last ∧
      (steps ≠ [] → (last = .slash ↔ ending = .slash)) := by
  have hhead := head?_tailOf hnames ending
  obtain ⟨hroot, hsteps, hending⟩ := startOf_append hstart hhead
  have hchars : (startText start).toList ++ tailOf steps ending ≠ [] := by
    cases start with
    | here => exact absurd rfl hstart
    | root => exact List.cons_ne_nil _ _
    | doubleRoot => exact List.cons_ne_nil _ _
  refine ⟨endingOf (tailOf steps ending), ?_, fun hne => endingOf_tailOf hne hnames ending⟩
  rw [ofText_of_ne_nil (by rwa [toList_text]), toList_text, hroot, hsteps, hending,
    stepsOf_tailOf hnames]

theorem text_congr {start : Start} {first second : Ending}
    (h : steps ≠ [] → (first = .slash ↔ second = .slash)) :
    (along start steps first).text = (along start steps second).text := by
  have hsame : (first = .slash ∧ steps ≠ []) ↔ (second = .slash ∧ steps ≠ []) := by
    constructor
    · exact fun hboth => ⟨(h hboth.2).mp hboth.1, hboth.2⟩
    · exact fun hboth => ⟨(h hboth.2).mpr hboth.1, hboth.2⟩
  simp only [text, hsame]

-- What has been spelled out is so from any working directory.
theorem spellOut_spellOut (cwd elsewhere text : String) :
    spellOut elsewhere (spellOut cwd text) = spellOut cwd text := by
  have hagain : ∀ start steps ending, start ≠ .here → (∀ step ∈ steps, IsName step) →
      spellOut elsewhere (along start steps ending).text = (along start steps ending).text := by
    intro start steps ending hstart hnames
    obtain ⟨last, hread, hlast⟩ := ofText_text hstart hnames ending
    have hkept : (along start steps last).absolute (names elsewhere) = along start steps last := by
      cases start with
      | here => exact absurd rfl hstart
      | root => rfl
      | doubleRoot => rfl
    rw [spellOut, hread, hkept]
    exact text_congr hlast
  by_cases hempty : text = ""
  · subst hempty
    rfl
  · have hchars : text.toList ≠ [] := by simpa using hempty
    have hown : ∀ step ∈ names text, IsName step := fun step hstep => isName_of_mem_names hstep
    have hspelled : spellOut cwd text = ((along (startOf text.toList) (names text)
        (endingOf text.toList)).absolute (names cwd)).text := by
      rw [spellOut, ofText_of_ne_nil hchars, stepsOf_toList]
    rw [hspelled]
    cases startOf text.toList with
    | here =>
      refine hagain _ _ _ (by simp) ?_
      intro step hstep
      rcases List.mem_append.mp hstep with hfar | hnear
      · exact isName_of_mem_names hfar
      · exact hown step hnear
    | root => exact hagain _ _ _ (by simp) hown
    | doubleRoot => exact hagain _ _ _ (by simp) hown

end Foreman.Path
