import Foreman.Proofs.Gate.Wakeups

namespace Foreman.Gate.Session

variable {s t : Session} {tag : Nat} {job : JobId}

-- A slot is given back while the call that has waited longest is for a job that has a slot, and
-- a call for a job that has none waits behind it.
def Misdirects (s : Session) : Event → Prop
  | .release job => ∃ gate first rest, s.line.gate.release? job = some gate ∧
      s.line.waiting = first :: rest ∧ gate.holds first.job = true ∧
      ∃ call ∈ rest, gate.holds call.job = false
  | _ => False

theorem settle_of_isSettled (hsettled : s.IsSettled) : s.settle = s := by
  simp [settle, settleWithin, show s.agenda = [] from hsettled]

-- One turn may be all there is to do.
theorem settle_of_turn (hagenda : s.agenda = [tag])
    (hdone : (({ s with agenda := [] } : Session).turn tag).IsSettled) :
    s.settle = ({ s with agenda := [] } : Session).turn tag := by
  have hlast : (({ s with agenda := [] } : Session).turn tag).agenda = [] := hdone
  simp [settle, settleWithin, hagenda, hlast]

-- Nobody is woken, and nobody has still to look.
def IsQuiet (s : Session) : Prop := s.line.woken = [] ∧ s.fresh = []

-- In a quiet session calls can only leave.
theorem quiet_turn (h : s.IsQuiet) (tag : Nat) :
    (s.turn tag).IsQuiet ∧ (s.turn tag).agenda = s.agenda ∧
      (s.turn tag).line.gate = s.line.gate ∧
      (s.turn tag).line.waiting.Sublist s.line.waiting := by
  obtain ⟨hwoken, hfresh⟩ := h
  have hleave : s.line.withdraw tag =
      { s.line with waiting := s.line.waiting.filter (fun call => call.tag != tag) } := by
    simp [Line.withdraw, hwoken]
  have hquiet : ∀ t : Session, t.line = s.line → t.fresh = [] →
      (t.leave tag).IsQuiet ∧ (t.leave tag).agenda = t.agenda ∧
      (t.leave tag).line.gate = s.line.gate ∧
      (t.leave tag).line.waiting.Sublist s.line.waiting := by
    intro t hline hnone
    simp only [leave, note, close, hline, withLine, summon, hleave, IsQuiet, hwoken, hnone,
      List.map_nil, List.filter_nil, List.append_nil, and_self, true_and]
    exact List.filter_sublist
  rcases turn_cases s tag with ⟨-, hturn⟩ | ⟨-, request, -, -, hrequest, -⟩ |
    ⟨-, request, hrequest, -⟩ | ⟨-, -, call, -, -, hcall, -⟩ |
    ⟨-, -, -, ⟨-, hturn⟩ | ⟨-, hturn⟩⟩
  · rw [hturn]
    exact hquiet (s.dropRequest tag) rfl (by simp [dropRequest, hfresh])
  · simp [hfresh] at hrequest
  · simp [hfresh] at hrequest
  · simp [hwoken] at hcall
  · rw [hturn]
    exact hquiet s rfl hfresh
  · rw [hturn]
    exact ⟨⟨hwoken, hfresh⟩, rfl, rfl, List.Sublist.refl _⟩

theorem quiet_settleWithin (h : s.IsQuiet) (fuel : Nat) (hfuel : s.agenda.length ≤ fuel) :
    (settleWithin fuel s).IsSettled ∧ (settleWithin fuel s).line.gate = s.line.gate ∧
      (settleWithin fuel s).line.waiting.Sublist s.line.waiting := by
  induction fuel generalizing s with
  | zero => exact ⟨List.length_eq_zero_iff.mp (Nat.le_zero.mp hfuel), rfl, List.Sublist.refl _⟩
  | succ fuel ih =>
    unfold settleWithin
    cases hagenda : s.agenda with
    | nil => exact ⟨hagenda, rfl, List.Sublist.refl _⟩
    | cons first rest =>
      have hpopped : ({ s with agenda := rest } : Session).IsQuiet := h
      obtain ⟨hquiet, hrest, hgate, hwaiting⟩ := quiet_turn hpopped first
      rw [hagenda, List.length_cons] at hfuel
      obtain ⟨hdone, hgate', hwaiting'⟩ := ih hquiet (by rw [hrest]; simp only; omega)
      exact ⟨hdone, hgate'.trans hgate, hwaiting'.trans hwaiting⟩

theorem quiet_settle (h : s.IsQuiet) :
    s.settle.IsSettled ∧ s.settle.line.gate = s.line.gate ∧
      s.settle.line.waiting.Sublist s.line.waiting :=
  quiet_settleWithin h (2 * s.agenda.length) (by omega)

theorem isServed_of_sublist (h : s.IsServed) (hgate : t.line.gate = s.line.gate)
    (hwaiting : t.line.waiting.Sublist s.line.waiting) : t.IsServed := by
  rcases h with hfull | hall
  · exact .inl (hgate ▸ hfull)
  · exact .inr fun call hcall => hgate ▸ hall call (hwaiting.subset hcall)

-- In a settled session a slot given back goes to the call that has waited longest, unless its
-- job has one.
theorem settle_release (h : s.Tidy) (hsettled : s.IsSettled) {job : JobId} {gate : Gate}
    {first : Call} {rest : List Call} (hgate : s.line.gate.release? job = some gate)
    (hwaiting : s.line.waiting = first :: rest) :
    (s.happen (.release job)).settle.IsSettled ∧
      ((∃ taken, gate.acquire? first.job = some taken ∧
          (s.happen (.release job)).settle.line = ⟨taken, rest, []⟩) ∨
        (first.job ∈ gate.holders ∧
          (s.happen (.release job)).settle.line = ⟨gate, rest, []⟩)) := by
  have hagenda : s.agenda = [] := hsettled
  have hwoken := h.woken_eq_nil hsettled
  have hfresh := h.fresh_eq_nil hsettled
  have hfirst : first ∈ s.line.waiting := hwaiting ▸ List.mem_cons_self
  have hstanding : s.standing first.tag ≠ .cancelled := by
    intro hcancelled
    have hdue := h.cancelled_due first hfirst hcancelled
    simp [hagenda] at hdue
  have hfree : gate.taken < gate.capacity := by
    have := Gate.free_release h.sound hgate
    simp only [Gate.free] at this
    omega
  have hline : s.line.release? job = some ⟨gate, rest, [first]⟩ := by
    simp [Line.release?, hgate, Line.wakeOne, hwaiting, hwoken]
  have hreleased : s.happen (.release job) =
      { s with line := ⟨gate, rest, [first]⟩, agenda := [first.tag] } := by
    simp [happen, release, hline, withLine, summon, hagenda]
  rw [hreleased]
  -- the only call with something to do is the one that was woken
  let told : Session := { s with line := ⟨gate, rest, [first]⟩, agenda := [] }
  have hsettle : (told.turn first.tag).IsSettled →
      ({ told with agenda := [first.tag] } : Session).settle = told.turn first.tag :=
    settle_of_turn (s := { told with agenda := [first.tag] }) rfl
  rcases turn_cases told first.tag with ⟨hcancelled, -⟩ | ⟨-, request, -, -, hrequest, -⟩ |
    ⟨-, request, hrequest, -⟩ | ⟨-, -, call, line, verdict, hcall, -, hlook, hturn⟩ |
    ⟨-, -, hnone, -⟩
  · exact absurd hcancelled hstanding
  · simp [told, hfresh] at hrequest
  · simp [told, hfresh] at hrequest
  · obtain rfl := List.mem_singleton.mp hcall
    have hwoken : told.line.woken.filter (fun other => other.tag != call.tag) = [] := by
      simp [told]
    simp only [Line.lookAgain, hwoken] at hlook
    have hdone : line.woken = [] → (told.turn call.tag).IsSettled := by
      intro hquiet
      rw [IsSettled, hturn, (note_frame _ _ _).2.1]
      simp [withLine, summon, hquiet, told]
    have hline : (told.turn call.tag).line = line := by
      rw [hturn, note_line, withLine_line]
    obtain ⟨taken, htaken, rfl, -⟩ | ⟨hnone, -, rfl, -⟩ | ⟨hnone, hheld, -, -, -⟩ :=
      Line.look_cases hlook
    · have hsettled := hdone rfl
      rw [hsettle hsettled]
      exact ⟨hsettled, .inl ⟨taken, htaken, hline⟩⟩
    · have hsettled := hdone rfl
      rw [hsettle hsettled]
      refine ⟨hsettled, .inr ⟨?_, hline⟩⟩
      rcases Gate.acquire?_eq_none_iff.mp hnone with hheld | hfull
      · exact Gate.holds_iff.mp hheld
      · exact absurd hfull (Nat.not_le_of_lt hfree)
    · have hfull := Line.full_of_acquire?_eq_none (l := ⟨gate, rest, []⟩) hnone hheld
      exact absurd hfull (Nat.not_le_of_lt hfree)
  · exact absurd rfl (hnone first (by simp [told]))

-- In a settled session a new call looks at once, or panics.
theorem settle_spawn (h : s.Tidy) (hsettled : s.IsSettled) (job : JobId) (timeout : Nat) :
    (s.happen (.spawn job timeout)).settle.IsSettled ∧
      ∃ verdict, s.line.lookFirst s.now ⟨s.nextTag, job, s.now + timeout⟩ =
        ((s.happen (.spawn job timeout)).settle.line, verdict) := by
  have hagenda : s.agenda = [] := hsettled
  have hwoken := h.woken_eq_nil hsettled
  have hfresh := h.fresh_eq_nil hsettled
  let asked : Session := { (s.spawn job timeout).2 with agenda := [] }
  have hstanding : asked.standing s.nextTag = .waiting := by
    have hnone : s.book.find? (fun entry => entry.1 == s.nextTag) = none := by
      rw [List.find?_eq_none]
      intro entry hentry
      have := h.book_lt entry hentry
      simp only [beq_iff_eq]
      omega
    simp [asked, Session.standing, spawn, summon, hnone]
  have hspawned : s.happen (.spawn job timeout) = { asked with agenda := [s.nextTag] } := by
    simp [happen, asked, spawn, summon, hagenda]
  have hsettle : (asked.turn s.nextTag).IsSettled →
      ({ asked with agenda := [s.nextTag] } : Session).settle = asked.turn s.nextTag :=
    settle_of_turn (s := { asked with agenda := [s.nextTag] }) rfl
  rw [hspawned]
  rcases turn_cases asked s.nextTag with ⟨hcancelled, -⟩ |
    ⟨-, request, line, verdict, hrequest, -, hrange, hlook, hturn⟩ |
    ⟨-, request, hrequest, -, hrange, hturn⟩ | ⟨-, hnone, -⟩ | ⟨-, hnone, -⟩
  · simp [hstanding] at hcancelled
  · have hnew : request = ⟨s.nextTag, job, timeout⟩ := by
      simpa [asked, spawn, summon, hfresh] using hrequest
    subst hnew
    have hquiet : line.woken = [] := by
      obtain ⟨g, -, rfl, -⟩ | ⟨-, -, rfl, -⟩ | ⟨-, -, -, rfl, -⟩ := Line.look_cases hlook <;>
        exact hwoken
    have hdone : (asked.turn s.nextTag).IsSettled := by
      rw [IsSettled, hturn, (note_frame _ _ _).2.1]
      simp [withLine, summon, hquiet, asked, dropRequest]
    have hline : (asked.turn s.nextTag).line = line := by
      rw [hturn, note_line, withLine_line]
    rw [hsettle hdone, hline]
    exact ⟨hdone, verdict, (if_pos hrange).trans hlook⟩
  · have hnew : request = ⟨s.nextTag, job, timeout⟩ := by
      simpa [asked, spawn, summon, hfresh] using hrequest
    subst hnew
    have hdone : (asked.turn s.nextTag).IsSettled := by
      rw [IsSettled, hturn, (note_frame _ _ _).2.1]
      simp [withLine, summon, asked, spawn, dropRequest, hwoken]
    have hline : (asked.turn s.nextTag).line = s.line := by
      rw [hturn, note_line, withLine_line]
      rfl
    rw [hsettle hdone, hline]
    exact ⟨hdone, .panics, if_neg hrange⟩
  · exact absurd rfl (hnone ⟨s.nextTag, job, timeout⟩ (by simp [asked, spawn, summon]))
  · exact absurd rfl (hnone ⟨s.nextTag, job, timeout⟩ (by simp [asked, spawn, summon]))

theorem isServed_acquire {gate : Gate} (h : s.IsServed)
    (hgate : s.line.gate.acquire? job = some gate) (htaken : t.line.gate = gate)
    (hwaiting : t.line.waiting = s.line.waiting) : t.IsServed := by
  have hfree := Gate.free_acquire hgate
  rcases h with hfull | hall
  · omega
  · right
    rw [htaken, hwaiting]
    intro call hcall
    rw [Gate.holds_iff, Gate.mem_holders_acquire hgate]
    exact .inl (Gate.holds_iff.mp (hall call hcall))

theorem Tidy.isQuiet (h : s.Tidy) (hsettled : s.IsSettled) : s.IsQuiet :=
  ⟨h.woken_eq_nil hsettled, h.fresh_eq_nil hsettled⟩

theorem release_of_waiting_eq_nil (h : s.Tidy) (hsettled : s.IsSettled) {gate : Gate}
    (hgate : s.line.gate.release? job = some gate) (hwaiting : s.line.waiting = []) :
    s.happen (.release job) = { s with line := ⟨gate, [], []⟩ } := by
  have hagenda : s.agenda = [] := hsettled
  have hline : s.line.release? job = some ⟨gate, [], []⟩ := by
    simp [Line.release?, hgate, Line.wakeOne, hwaiting, h.woken_eq_nil hsettled]
  simp [happen, release, hline, withLine, summon, hagenda]

theorem release_of_eq_none (hgate : s.line.gate.release? job = none) :
    s.happen (.release job) = s := by
  simp [happen, release, Line.release?, hgate]

theorem isSettled_settle (h : s.Tidy) (hsettled : s.IsSettled) (event : Event) :
    (s.happen event).settle.IsSettled := by
  have hquiet := h.isQuiet hsettled
  cases event with
  | acquireNow job =>
    have hdone : (s.happen (.acquireNow job)).IsSettled := by
      simp only [happen, acquireNow]
      split <;> exact hsettled
    rw [settle_of_isSettled hdone]
    exact hdone
  | release job =>
    cases hgate : s.line.gate.release? job with
    | none =>
      rw [release_of_eq_none hgate, settle_of_isSettled hsettled]
      exact hsettled
    | some gate =>
      cases hwaiting : s.line.waiting with
      | nil =>
        have hdone : (s.happen (.release job)).IsSettled := by
          rw [release_of_waiting_eq_nil h hsettled hgate hwaiting]
          exact hsettled
        rw [settle_of_isSettled hdone]
        exact hdone
      | cons first rest => exact (settle_release h hsettled hgate hwaiting).1
  | spawn job timeout => exact (settle_spawn h hsettled job timeout).1
  | cancel tag =>
    have hcancelled : (s.happen (.cancel tag)).IsQuiet := hquiet
    exact (quiet_settle hcancelled).1
  | pass now =>
    simp only [happen]
    split
    · have hpassed : (s.arriveAt now).IsQuiet := hquiet
      exact (quiet_settle hpassed).1
    · rw [settle_of_isSettled hsettled]
      exact hsettled
  | turn tag =>
    have hsame : s.happen (.turn tag) = s := by
      simp [happen, show s.agenda = [] from hsettled]
    rw [hsame, settle_of_isSettled hsettled]
    exact hsettled

theorem isServed_settle_release_iff (h : s.Tidy) (hsettled : s.IsSettled) (hserved : s.IsServed)
    (job : JobId) :
    (s.happen (.release job)).settle.IsServed ↔ ¬ s.Misdirects (.release job) := by
  cases hgate : s.line.gate.release? job with
  | none =>
    rw [release_of_eq_none hgate, settle_of_isSettled hsettled]
    exact iff_of_true hserved (by simp [Misdirects, hgate])
  | some gate =>
    have hholds : ∀ other, other ∈ gate.holders ↔ other ≠ job ∧ other ∈ s.line.gate.holders :=
      fun other => Gate.mem_holders_release h.sound hgate
    have hfree := Gate.free_release h.sound hgate
    cases hwaiting : s.line.waiting with
    | nil =>
      have hdone : (s.happen (.release job)).IsSettled := by
        rw [release_of_waiting_eq_nil h hsettled hgate hwaiting]
        exact hsettled
      rw [settle_of_isSettled hdone, release_of_waiting_eq_nil h hsettled hgate hwaiting]
      exact iff_of_true (.inr (by simp)) (by simp [Misdirects, hwaiting])
    | cons first rest =>
      obtain ⟨-, ⟨taken, htaken, hline⟩ | ⟨hheld, hline⟩⟩ :=
        settle_release h hsettled hgate hwaiting
      · -- the first call takes the slot
        obtain ⟨hnone, -, -⟩ := Gate.acquire?_eq_some_iff.mp htaken
        refine iff_of_true ?_ ?_
        · rcases hserved with hfull | hall
          · left
            have hfewer := Gate.free_acquire htaken
            rw [hline]
            simp only
            omega
          · -- so it is for the job that has just given its slot back
            right
            have hfirst := hall first (hwaiting ▸ List.mem_cons_self)
            have hsame : first.job = job := by
              by_contra hne
              exact hnone ((hholds _).mpr ⟨hne, Gate.holds_iff.mp hfirst⟩)
            rw [hline]
            intro call hcall
            have hbefore := hall call (hwaiting ▸ List.mem_cons_of_mem _ hcall)
            rw [Gate.holds_iff, Gate.mem_holders_acquire htaken, hholds]
            rw [Gate.holds_iff] at hbefore
            by_cases he : call.job = job
            · exact .inr (he.trans hsame.symm)
            · exact .inl ⟨he, hbefore⟩
        · rintro ⟨gate', first', rest', hgate', hwaiting', hfirst, -⟩
          obtain rfl : gate = gate' := Option.some_inj.mp (hgate.symm.trans hgate')
          obtain ⟨rfl, rfl⟩ := List.cons.inj (hwaiting.symm.trans hwaiting')
          exact hnone (Gate.holds_iff.mp hfirst)
      · -- it gives up, and the slot stays free
        rw [IsServed, hline]
        constructor
        · rintro hafter ⟨gate', first', rest', hgate', hwaiting', -, call, hcall, hnone⟩
          obtain rfl : gate = gate' := Option.some_inj.mp (hgate.symm.trans hgate')
          obtain ⟨rfl, rfl⟩ := List.cons.inj (hwaiting.symm.trans hwaiting')
          rcases hafter with hfull | hall
          · simp only at hfull
            omega
          · exact absurd (hall call hcall) (by simpa using hnone)
        · intro hdirect
          right
          intro call hcall
          by_contra hnone
          exact hdirect ⟨gate, first, rest, hgate, hwaiting, Gate.holds_iff.mpr hheld, call, hcall,
            by simpa using hnone⟩

theorem isServed_settle_iff (h : s.Tidy) (hsettled : s.IsSettled) (hserved : s.IsServed)
    (event : Event) : (s.happen event).settle.IsServed ↔ ¬ s.Misdirects event := by
  have hquiet := h.isQuiet hsettled
  cases event with
  | acquireNow job =>
    have hdone : (s.happen (.acquireNow job)).IsSettled ∧ (s.happen (.acquireNow job)).IsServed := by
      simp only [happen, acquireNow, Line.acquire?]
      cases hgate : s.line.gate.acquire? job with
      | none => exact ⟨hsettled, hserved⟩
      | some gate => exact ⟨hsettled, isServed_acquire hserved hgate rfl rfl⟩
    rw [settle_of_isSettled hdone.1]
    exact iff_of_true hdone.2 id
  | release job => exact isServed_settle_release_iff h hsettled hserved job
  | spawn job timeout =>
    obtain ⟨-, verdict, hasked⟩ := settle_spawn h hsettled job timeout
    refine iff_of_true ?_ id
    rcases Line.lookFirst_cases hasked with ⟨-, hlook⟩ | ⟨-, hline, -⟩
    swap
    · exact isServed_of_sublist hserved (by rw [hline]) (by rw [hline])
    obtain ⟨gate, hgate, hline, -⟩ | ⟨-, -, hline, -⟩ | ⟨hnone, hfree, -, hline, -⟩ :=
      Line.look_cases hlook
    · exact isServed_acquire hserved hgate (by rw [hline]) (by rw [hline])
    · exact isServed_of_sublist hserved (by rw [hline]) (by rw [hline])
    · left
      have hfull := Line.full_of_acquire?_eq_none hnone hfree
      rw [hline]
      simp only [Gate.free]
      omega
  | cancel tag =>
    have hcancelled : (s.happen (.cancel tag)).IsQuiet := hquiet
    obtain ⟨-, hgate, hwaiting⟩ := quiet_settle hcancelled
    exact iff_of_true (isServed_of_sublist hserved hgate hwaiting) id
  | pass now =>
    simp only [happen]
    split
    · have hpassed : (s.arriveAt now).IsQuiet := hquiet
      obtain ⟨-, hgate, hwaiting⟩ := quiet_settle hpassed
      exact iff_of_true (isServed_of_sublist hserved hgate hwaiting) id
    · rw [settle_of_isSettled hsettled]
      exact iff_of_true hserved id
  | turn tag =>
    have hsame : s.happen (.turn tag) = s := by
      simp [happen, show s.agenda = [] from hsettled]
    rw [hsame, settle_of_isSettled hsettled]
    exact iff_of_true hserved id

-- Events one after the other, with all calls having their turns after each.
def paced (s : Session) (events : List Event) : Session :=
  events.foldl (fun s event => (s.happen event).settle) s

-- The turns of the calls are events as well.
theorem exists_settle_happen_eq_runs (s : Session) (event : Event) :
    ∃ turns, (s.happen event).settle = s.runs (event :: turns) :=
  exists_settleWithin_eq_runs _ (s.happen event)

theorem exists_paced_eq_runs (s : Session) (events : List Event) :
    ∃ run, s.paced events = s.runs run := by
  induction events generalizing s with
  | nil => exact ⟨[], rfl⟩
  | cons event events ih =>
    obtain ⟨turns, hturns⟩ := exists_settle_happen_eq_runs s event
    obtain ⟨run, hrun⟩ := ih (s.happen event).settle
    refine ⟨event :: turns ++ run, ?_⟩
    rw [runs_append, ← hturns]
    exact hrun

theorem Tidy.settle_happen (h : s.Tidy) (event : Event) : (s.happen event).settle.Tidy := by
  obtain ⟨turns, hturns⟩ := exists_settle_happen_eq_runs s event
  exact hturns ▸ h.runs (event :: turns)

theorem isSettled_paced (h : s.Tidy) (hsettled : s.IsSettled) (events : List Event) :
    (s.paced events).IsSettled := by
  induction events generalizing s with
  | nil => exact hsettled
  | cons event events ih =>
    exact ih (h.settle_happen event) (isSettled_settle h hsettled event)

-- No slot is idle beside a call that could take it, all along, just if none is ever misdirected.
theorem isServed_paced_iff (h : s.Tidy) (hsettled : s.IsSettled) (hserved : s.IsServed)
    (events : List Event) :
    (∀ before, before <+: events → (s.paced before).IsServed) ↔
      ∀ before event, before ++ [event] <+: events → ¬ (s.paced before).Misdirects event := by
  induction events generalizing s with
  | nil => simp [paced, hserved]
  | cons event events ih =>
    have hnext := isServed_settle_iff h hsettled hserved event
    have hrest := fun hserved => ih (h.settle_happen event) (isSettled_settle h hsettled event) hserved
    constructor
    · intro hall before other hbefore
      have hfirst : (s.happen event).settle.IsServed := hall [event] (by simp)
      cases before with
      | nil =>
        obtain ⟨rfl, -⟩ := List.cons_prefix_cons.mp hbefore
        exact hnext.mp hfirst
      | cons first before =>
        obtain ⟨rfl, hlater⟩ := List.cons_prefix_cons.mp hbefore
        refine (hrest hfirst).mp (fun before hbefore => ?_) before other hlater
        exact hall (first :: before) (List.cons_prefix_cons.mpr ⟨rfl, hbefore⟩)
    · intro hdirect before hbefore
      have hfirst : (s.happen event).settle.IsServed := hnext.mpr (hdirect [] event (by simp))
      cases before with
      | nil => exact hserved
      | cons first before =>
        obtain ⟨rfl, hlater⟩ := List.cons_prefix_cons.mp hbefore
        refine (hrest hfirst).mpr (fun before other hbefore => ?_) before hlater
        exact hdirect (first :: before) other (List.cons_prefix_cons.mpr ⟨rfl, hbefore⟩)

instance (s : Session) : Decidable s.IsSettled := inferInstanceAs (Decidable (_ = _))

instance (s : Session) : Decidable s.IsServed := inferInstanceAs (Decidable (_ ∨ _))

-- However events and turns are interleaved, a settled session leaves a free slot idle beside a call
-- that could take it just if a woken call once gave up because its own job had a slot, and with it
-- the news of the free slot, and a slot has been owed to someone ever since. Where all calls have
-- their turns after each event, this begins just when a slot is given back while the call that has
-- waited longest is for a job with a slot, and a call for a job without one waits behind it.
theorem isServed_unless_misdirected (capacity : Nat) (events : List Event)
    (hsettled : ((start capacity).runs events).IsSettled) :
    let s := (start capacity).runs events
    (¬ s.IsServed ↔
      (∃ call ∈ s.line.waiting, s.line.gate.holds call.job = false) ∧
        Since (fun before event => ((start capacity).runs before).Wastes event)
          (fun run => ((start capacity).runs run).line.Owes) events) ∧
    ∀ later,
      (∃ run, s.paced later = (start capacity).runs (events ++ run)) ∧
      (s.paced later).IsSettled ∧
      (s.IsServed →
        ((∀ before, before <+: later → (s.paced before).IsServed) ↔
          ∀ before event, before ++ [event] <+: later →
            ¬ (s.paced before).Misdirects event)) := by
  have htidy := (tidy_start capacity).runs events
  refine ⟨?_, fun later => ⟨?_, isSettled_paced htidy hsettled later, ?_⟩⟩
  · have howes : ¬ (start capacity).line.Owes := fun howes => howes.1 rfl
    rw [← owes_runs_iff (tidy_start capacity) howes]
    exact not_isServed_iff htidy hsettled
  · obtain ⟨run, hrun⟩ := exists_paced_eq_runs ((start capacity).runs events) later
    exact ⟨run, by rw [runs_append, hrun]⟩
  · exact fun hserved => isServed_paced_iff htidy hsettled hserved later

-- Two jobs have all the slots. Two calls for one other job wait, and behind them a call for a
-- third. Each slot is given back in its turn.
def crossedCalls : List Event :=
  [.acquireNow ⟨1⟩, .acquireNow ⟨2⟩, .spawn ⟨3⟩ 5000, .spawn ⟨3⟩ 5000, .spawn ⟨4⟩ 5000,
    .turn 0, .turn 1, .turn 2, .release ⟨1⟩, .turn 0, .release ⟨2⟩, .turn 1]

theorem isServed_unless_misdirected_crossedCalls :
    ((start 2).runs crossedCalls).IsSettled ∧ ¬ ((start 2).runs crossedCalls).IsServed ∧
    Since (fun before event => ((start 2).runs before).Wastes event)
      (fun run => ((start 2).runs run).line.Owes) crossedCalls :=
  ⟨by decide, by decide,
    ((isServed_unless_misdirected 2 crossedCalls (by decide)).1.mp (by decide)).2⟩

-- The second slot is free, and the call for the third job waits all the same.
theorem crossedCalls_idle_slot :
    ((start 2).runs crossedCalls).IsSettled ∧ ((start 2).runs crossedCalls).line.gate.free = 1 ∧
    ((start 2).runs crossedCalls).line.waiting = [⟨2, ⟨4⟩, 5000⟩] ∧
    ¬ ((start 2).runs crossedCalls).IsServed := by
  decide

end Foreman.Gate.Session
