import Foreman.Proofs.Keyed
import Foreman.Proofs.Rate.Refill
import Foreman.Rate.Limiter

namespace Foreman

deriving instance DecidableEq for Decision

namespace Bucket

-- The answers of one bucket to checks at these times.
def decisions (b : Bucket Rat) : List Nat → List (Decision Rat)
  | [] => []
  | now :: rest => (b.take now).1 :: (b.take now).2.decisions rest

-- The answers of a bucket that is made at the first check and asked nothing else.
def alone (limit : Limit) (times : List Nat) : List (Decision Rat) :=
  match times with
  | [] => []
  | first :: _ => (ofLimit limit first).decisions times

-- The same from where the bucket is, if it has been made.
def resume (limit : Limit) (lone : Option (Bucket Rat)) (times : List Nat) :
    List (Decision Rat) :=
  match times with
  | [] => []
  | first :: _ => (lone.getD (ofLimit limit first)).decisions times

theorem resume_none (limit : Limit) (times : List Nat) :
    resume limit none times = alone limit times := by
  cases times <;> rfl

theorem resume_some (limit : Limit) (b : Bucket Rat) (times : List Nat) :
    resume limit (some b) times = b.decisions times := by
  cases times <;> rfl

-- Two buckets that need not be the same, or be there, but come to the same whenever they
-- are counted from this time on.
def Matches (limit : Limit) (time : Nat) (kept lone : Option (Bucket Rat)) : Prop :=
  ∀ now, time ≤ now → (kept.getD (ofLimit limit now)).topUp now =
    (lone.getD (ofLimit limit now)).topUp now

variable {limit : Limit} {time now : Nat} {kept lone : Option (Bucket Rat)}

theorem Matches.mono (h : Matches limit time kept lone) (htime : time ≤ now) :
    Matches limit now kept lone :=
  fun later hlater => h later (htime.trans hlater)

theorem Matches.take (h : Matches limit time kept lone) (hnow : time ≤ now) :
    (kept.getD (ofLimit limit now)).take now = (lone.getD (ofLimit limit now)).take now :=
  take_congr (h now hnow)

-- A bucket may be counted at any time, and may be thrown away when it is full.
theorem Matches.drop (h : Matches limit time kept lone) (hnow : time ≤ now)
    (hkept : ∀ b ∈ kept, b.Fits limit time) :
    Matches limit now ((kept.map (Bucket.topUp · now)).filter (fun b => !b.isFull)) lone := by
  intro later hlater
  rw [← h later (hnow.trans hlater)]
  cases kept with
  | none => rfl
  | some b =>
    have hb := hkept b rfl
    have hcounted : (b.topUp now).topUp later = b.topUp later := hb.topUp_topUp hnow hlater
    cases hfull : (b.topUp now).isFull with
    | false => simpa [Option.filter, hfull] using hcounted
    | true =>
      have hnew : b.topUp now = ofLimit limit now := (hb.topUp now).eq_ofLimit hfull
      have hfresh : (ofLimit limit later).topUp later = b.topUp later := by
        rw [← hcounted, hnew, ofLimit_topUp, ofLimit_topUp]
      simpa [Option.filter, hfull] using hfresh

end Bucket

namespace Limiter

-- What can be asked of a limiter.
inductive Ask where
  | check (caller category : String)
  | prune
  deriving DecidableEq

-- What a limiter answers when it is asked these things at these times, each answer with
-- the caller and the category it is for.
def answers (l : Limiter Rat) : List (Nat × Ask) → List ((String × String) × Decision Rat)
  | [] => []
  | (now, .check caller category) :: rest =>
    ((caller, category), (l.take caller category now).1) ::
      answers (l.take caller category now).2 rest
  | (now, .prune) :: rest => answers (l.dropFull now) rest

def answersTo (l : Limiter Rat) (key : String × String) (run : List (Nat × Ask)) :
    List (Decision Rat) :=
  ((l.answers run).filter (fun answer => answer.1 == key)).map Prod.snd

def checksOf (key : String × String) (run : List (Nat × Ask)) : List Nat :=
  (run.filter (fun step => step.2 == .check key.1 key.2)).map Prod.fst

-- Each caller has at most one bucket in a category, and it is one for the category's limit.
structure Sound (l : Limiter Rat) (time : Nat) : Prop where
  apart : (l.buckets.map Prod.fst).Nodup
  fits : ∀ key, ∀ b ∈ l.bucket? key, b.Fits (l.limitOf key.2) time

variable {l : Limiter Rat} {key other : String × String} {time now : Nat} {b : Bucket Rat}

@[simp] theorem limitOf_put (l : Limiter Rat) (key : String × String) (b : Bucket Rat)
    (category : String) : (l.put key b).limitOf category = l.limitOf category := rfl

@[simp] theorem limitOf_dropFull (l : Limiter Rat) (now : Nat) (category : String) :
    (l.dropFull now).limitOf category = l.limitOf category := rfl

theorem take_eq (l : Limiter Rat) (caller category : String) (now : Nat) :
    l.take caller category now =
      let taken := ((l.bucket? (caller, category)).getD
        (Bucket.ofLimit (l.limitOf category) now)).take now
      (taken.1, l.put (caller, category) taken.2) := by
  rcases htaken : ((l.bucket? (caller, category)).getD
    (Bucket.ofLimit (l.limitOf category) now)).take now with ⟨decision, b⟩
  simp only [take, htaken]

theorem bucket?_put_self (l : Limiter Rat) (key : String × String) (b : Bucket Rat) :
    (l.put key b).bucket? key = some b := by
  have hnone : (l.buckets.filter (fun entry => entry.1 != key)).find? (fun entry => entry.1 == key)
      = none := by
    rw [List.find?_eq_none]
    intro entry hentry
    simpa using (List.mem_filter.mp hentry).2
  simp [put, bucket?, List.find?_append, hnone]

theorem bucket?_put_of_ne (hother : other ≠ key) :
    (l.put key b).bucket? other = l.bucket? other := by
  have hkept : (l.buckets.filter (fun entry => entry.1 != key)).find?
      (fun entry => entry.1 == other) = l.buckets.find? (fun entry => entry.1 == other) := by
    rw [List.find?_filter]
    congr 1
    funext entry
    by_cases hentry : entry.1 = other <;> simp [hentry, hother]
  simp [put, bucket?, List.find?_append, hkept, hother.symm]

theorem bucket?_dropFull (hapart : (l.buckets.map Prod.fst).Nodup) (now : Nat)
    (key : String × String) :
    (l.dropFull now).bucket? key =
      ((l.bucket? key).map (Bucket.topUp · now)).filter (fun b => !b.isFull) := by
  have hkeys :
      ((l.buckets.map (fun entry => (entry.1, entry.2.topUp now))).map Prod.fst).Nodup := by
    simpa [Function.comp_def] using hapart
  unfold dropFull bucket?
  rw [Keyed.find?_filter hkeys, List.find?_map]
  show Option.map Prod.snd (Option.filter _ (Option.map _
    (l.buckets.find? (fun entry => entry.1 == key)))) = _
  cases l.buckets.find? (fun entry => entry.1 == key) with
  | none => rfl
  | some entry => cases hfull : (entry.2.topUp now).isFull <;> simp [Option.filter, hfull]

theorem Sound.mono (h : l.Sound time) (htime : time ≤ now) : l.Sound now :=
  ⟨h.apart, fun key b hb => (h.fits key b hb).mono htime⟩

theorem sound_ofLimits (limits : List (String × Limit)) (fallback : Limit) :
    (ofLimits limits fallback).Sound 0 :=
  ⟨List.nodup_nil, fun _ _ hb => by simp [ofLimits, bucket?] at hb⟩

theorem Sound.put (h : l.Sound time) (hb : b.Fits (l.limitOf key.2) time) :
    (l.put key b).Sound time where
  apart := by
    rw [Limiter.put, List.map_append, List.nodup_append]
    refine ⟨h.apart.sublist (List.filter_sublist.map _), List.nodup_singleton _, ?_⟩
    intro k hk k' hk' he
    obtain ⟨entry, hentry, rfl⟩ := List.mem_map.mp hk
    rw [List.map_singleton, List.mem_singleton] at hk'
    have hne := (List.mem_filter.mp hentry).2
    simp [he, hk'] at hne
  fits := by
    intro other c hc
    by_cases hother : other = key
    · rw [hother, bucket?_put_self, Option.mem_some_iff] at hc
      rw [hother, ← hc]
      exact hb
    · rw [bucket?_put_of_ne hother] at hc
      exact h.fits other c hc

theorem Sound.fits_getD (h : l.Sound time) (htime : time ≤ now) (key : String × String) :
    ((l.bucket? key).getD (Bucket.ofLimit (l.limitOf key.2) now)).Fits (l.limitOf key.2) now := by
  cases hkept : l.bucket? key with
  | none => exact Bucket.fits_ofLimit _ now
  | some b => exact (h.fits key b hkept).mono htime

theorem Sound.take (h : l.Sound time) (htime : time ≤ now) (caller category : String) :
    (l.take caller category now).2.Sound now := by
  rw [take_eq]
  exact (h.mono htime).put ((h.fits_getD htime (caller, category)).take now)

theorem Sound.dropFull (h : l.Sound time) (now : Nat) : (l.dropFull now).Sound now where
  apart := by
    refine List.Nodup.sublist (List.filter_sublist.map _) ?_
    simpa [Function.comp_def] using h.apart
  fits := by
    intro key c hc
    rw [bucket?_dropFull h.apart, Option.mem_def, Option.filter_eq_some_iff,
      Option.map_eq_some_iff] at hc
    obtain ⟨⟨b, hkept, rfl⟩, -⟩ := hc
    exact (h.fits key b hkept).topUp now

-- A check of another caller or in another category leaves the bucket as it is.
theorem bucket?_take_of_ne {caller category : String} (hkey : key ≠ (caller, category)) :
    (l.take caller category now).2.bucket? key = l.bucket? key := by
  rw [take_eq]
  exact bucket?_put_of_ne hkey

theorem bucket?_take_self (l : Limiter Rat) (key : String × String) (now : Nat) :
    (l.take key.1 key.2 now).2.bucket? key = some
      (((l.bucket? key).getD (Bucket.ofLimit (l.limitOf key.2) now)).take now).2 :=
  bucket?_put_self l key _

theorem answersTo_check_self (l : Limiter Rat) (caller category : String) (now : Nat)
    (rest : List (Nat × Ask)) :
    l.answersTo (caller, category) ((now, .check caller category) :: rest) =
      (l.take caller category now).1 ::
        (l.take caller category now).2.answersTo (caller, category) rest := by
  simp [answersTo, answers]

theorem answersTo_check_of_ne {caller category : String} (hkey : key ≠ (caller, category))
    (rest : List (Nat × Ask)) :
    l.answersTo key ((now, .check caller category) :: rest) =
      (l.take caller category now).2.answersTo key rest := by
  simp [answersTo, answers, hkey.symm]

theorem answersTo_prune (l : Limiter Rat) (key : String × String) (now : Nat)
    (rest : List (Nat × Ask)) :
    l.answersTo key ((now, .prune) :: rest) = (l.dropFull now).answersTo key rest := rfl

theorem checksOf_check_self (caller category : String) (now : Nat) (rest : List (Nat × Ask)) :
    checksOf (caller, category) ((now, .check caller category) :: rest) =
      now :: checksOf (caller, category) rest := by
  simp [checksOf]

theorem checksOf_of_ne {ask : Ask} (hask : ask ≠ .check key.1 key.2) (rest : List (Nat × Ask)) :
    checksOf key ((now, ask) :: rest) = checksOf key rest := by
  simp [checksOf, hask]

-- Asking the limiter and asking the lone bucket keep in step: by induction on the run, with
-- the limiter's bucket and the lone one matching at every turn.
theorem answersTo_eq_resume {run : List (Nat × Ask)} {lone : Option (Bucket Rat)}
    (hsound : l.Sound time) (hmatch : Bucket.Matches (l.limitOf key.2) time (l.bucket? key) lone)
    (hfrom : ∀ step ∈ run, time ≤ step.1) (hclock : (run.map Prod.fst).Pairwise (· ≤ ·)) :
    l.answersTo key run = Bucket.resume (l.limitOf key.2) lone (checksOf key run) := by
  induction run generalizing l time lone with
  | nil => rfl
  | cons step rest ih =>
    obtain ⟨now, ask⟩ := step
    have htime : time ≤ now := hfrom _ (List.mem_cons_self ..)
    obtain ⟨hlater, hsorted⟩ := List.pairwise_cons.mp hclock
    have hrest : ∀ step ∈ rest, now ≤ step.1 :=
      fun step hstep => hlater _ (List.mem_map_of_mem hstep)
    cases ask with
    | prune =>
      have hdrop := hmatch.drop htime (hsound.fits key)
      rw [← bucket?_dropFull hsound.apart] at hdrop
      rw [answersTo_prune, checksOf_of_ne (by simp)]
      exact ih (hsound.dropFull now) hdrop hrest hsorted
    | check caller category =>
      have hnext := hsound.take htime caller category
      by_cases hkey : key = (caller, category)
      · subst hkey
        have hsame : Bucket.Matches (l.limitOf category) now
            ((l.take caller category now).2.bucket? (caller, category))
            (some ((lone.getD (Bucket.ofLimit (l.limitOf category) now)).take now).2) := by
          rw [bucket?_take_self l (caller, category), hmatch.take htime]
          exact fun _ _ => rfl
        have hanswer : (l.take caller category now).1 =
            ((lone.getD (Bucket.ofLimit (l.limitOf category) now)).take now).1 := by
          rw [take_eq, hmatch.take htime]
        have htail := ih hnext hsame hrest hsorted
        rw [Bucket.resume_some] at htail
        rw [answersTo_check_self, checksOf_check_self, hanswer, htail]
        rfl
      · have hkept := hmatch.mono htime
        rw [← bucket?_take_of_ne hkey] at hkept
        rw [answersTo_check_of_ne hkey, checksOf_of_ne (by rintro ⟨⟩; exact hkey rfl)]
        exact ih hnext hkept hrest hsorted

theorem checksOf_filter {run : List (Nat × Ask)} {chosen : Nat × Ask → Bool}
    (hchosen : ∀ now, chosen (now, .check key.1 key.2) = true) :
    checksOf key (run.filter chosen) = checksOf key run := by
  unfold checksOf
  rw [List.filter_filter]
  congr 2
  funext step
  by_cases hstep : step.2 = .check key.1 key.2
  · have hkept : chosen step = true := by
      rw [← hchosen step.1, ← hstep]
    simp [hstep, hkept]
  · simp [hstep]

-- Over a clock that does not go back, a caller is answered in a category as by a bucket of
-- its own. Nothing else that is asked, of others or for the upkeep, is ever noticed.
theorem answersTo_eq_alone (limits : List (String × Limit)) (fallback : Limit)
    (key : String × String) (run : List (Nat × Ask))
    (hclock : (run.map Prod.fst).Pairwise (· ≤ ·)) :
    (ofLimits limits fallback).answersTo key run =
        Bucket.alone ((ofLimits limits fallback : Limiter Rat).limitOf key.2) (checksOf key run) ∧
      ∀ chosen : Nat × Ask → Bool, (∀ now, chosen (now, .check key.1 key.2) = true) →
        (ofLimits limits fallback).answersTo key (run.filter chosen) =
          (ofLimits limits fallback).answersTo key run := by
  have hlone : ∀ run : List (Nat × Ask), (run.map Prod.fst).Pairwise (· ≤ ·) →
      (ofLimits limits fallback).answersTo key run = Bucket.alone
        ((ofLimits limits fallback : Limiter Rat).limitOf key.2) (checksOf key run) := by
    intro run hclock
    rw [← Bucket.resume_none]
    exact answersTo_eq_resume (sound_ofLimits limits fallback) (fun _ _ => rfl)
      (fun _ _ => Nat.zero_le _) hclock
  refine ⟨hlone run hclock, fun chosen hchosen => ?_⟩
  have hpart : ((run.filter chosen).map Prod.fst).Pairwise (· ≤ ·) :=
    hclock.sublist (List.filter_sublist.map _)
  rw [hlone _ hpart, hlone _ hclock, checksOf_filter hchosen]

-- The bucket is full again and thrown away before the last check.
theorem answersTo_eq_alone_pruned :
    let run : List (Nat × Ask) :=
      [(0, .check "ann" "download"), (0, .check "ann" "download"), (0, .check "bob" "download"),
        (1000000000, .prune), (1000000000, .check "ann" "download")]
    let l : Limiter Rat := ofLimits [("download", ⟨60, 1⟩)] ⟨120, 2⟩
    l.answersTo ("ann", "download") run = Bucket.alone ⟨60, 1⟩ [0, 0, 1000000000] ∧
      l.answersTo ("ann", "download") run =
        [⟨true, some 0⟩, ⟨false, some 1⟩, ⟨true, some 0⟩] := by
  have halone := (answersTo_eq_alone [("download", ⟨60, 1⟩)] ⟨120, 2⟩ ("ann", "download")
    [(0, .check "ann" "download"), (0, .check "ann" "download"), (0, .check "bob" "download"),
      (1000000000, .prune), (1000000000, .check "ann" "download")] (by decide)).1
  exact ⟨halone, halone.trans (by decide +kernel)⟩

end Limiter

end Foreman
