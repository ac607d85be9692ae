import RaspikeArt.Model.Passes
import RaspikeArt.Threads.History
import Mathlib.Data.List.Nodup

/-!
# Sequence numbers

`next_sequence` counts `1, 2, .., 2 ^ 32 - 1, 1, ..`: the number zero, which legacy frames carry, is
never drawn, and `2 ^ 32 - 1` draws in a row are all different.

* `nthSequence k`     the number the draw `k` gives;
* `sequences`         the machine: each draw has its index, and a request uses the index its thread
                      drew last, once;
* `sequence_refines`  the code keeps to the machine.
-/

set_option linter.unusedSectionVars false

namespace RaspikeArt
open Threads

def sequencePeriod : Nat := 2 ^ 32 - 1

def nthSequence (k : Nat) : U32 := BitVec.ofNat 32 (1 + k % sequencePeriod)

theorem nthSequence_toNat (k : Nat) : (nthSequence k).toNat = 1 + k % sequencePeriod := by
  have hlt : k % sequencePeriod < sequencePeriod := Nat.mod_lt _ (by decide)
  have hper : sequencePeriod = 2 ^ 32 - 1 := rfl
  rw [nthSequence, BitVec.toNat_ofNat, Nat.mod_eq_of_lt (by omega)]

theorem nthSequence_ne_zero (k : Nat) : nthSequence k ≠ 0 := by
  intro h
  have htn := nthSequence_toNat k
  rw [h] at htn
  have hz : (0 : U32).toNat = 0 := rfl
  omega

theorem nthSequence_inj {j k : Nat} (hj : j < sequencePeriod) (hk : k < sequencePeriod)
    (h : nthSequence j = nthSequence k) : j = k := by
  have h1 := nthSequence_toNat j
  have h2 := nthSequence_toNat k
  rw [h, h2, Nat.mod_eq_of_lt hj, Nat.mod_eq_of_lt hk] at h1
  omega

theorem nthSequence_succ {k : Nat} (h : nthSequence k + 1 ≠ 0) :
    nthSequence (k + 1) = nthSequence k + 1 := by
  have hper : sequencePeriod = 4294967295 := rfl
  have htn := nthSequence_toNat k
  have hlt : k % sequencePeriod < sequencePeriod := Nat.mod_lt _ (by decide)
  have hne : k % sequencePeriod ≠ 4294967294 := by
    intro he
    refine h (BitVec.eq_of_toNat_eq ?_)
    rw [BitVec.toNat_add, htn, he]
    rfl
  refine BitVec.eq_of_toNat_eq ?_
  have hone : (1 : U32).toNat = 1 := rfl
  rw [BitVec.toNat_add, nthSequence_toNat, htn, hone]
  rw [hper] at hlt hne ⊢
  omega

theorem nthSequence_wrap {k : Nat} (h : nthSequence k + 1 = 0) : nthSequence (k + 1) = 1 := by
  have hper : sequencePeriod = 4294967295 := rfl
  have htn := nthSequence_toNat k
  have hlt : k % sequencePeriod < sequencePeriod := Nat.mod_lt _ (by decide)
  have hsum := congrArg BitVec.toNat h
  have hone : (1 : U32).toNat = 1 := rfl
  have hz : (0 : U32).toNat = 0 := rfl
  rw [BitVec.toNat_add, htn, hone, hz] at hsum
  refine BitVec.eq_of_toNat_eq ?_
  rw [nthSequence_toNat, hone]
  rw [hper] at hlt hsum ⊢
  omega

/-! ## the machine -/

variable {T : Type}

structure Draws (T : Type) where
  count : Nat
  /-- the index a thread drew last, until a request of it uses it -/
  last : T → Option Nat
  used : List Nat

def Draws.start : Draws T := ⟨0, fun _ => none, []⟩

variable [DecidableEq T]

def Draws.next (a : Draws T) (t : T) : Event → Draws T
  | .drawn _ => { a with count := a.count + 1, last := Function.update a.last t (some a.count) }
  | .pend _ _ _ =>
    { a with last := Function.update a.last t none, used := (a.last t).toList ++ a.used }
  | _ => a

def Draws.Ok (a : Draws T) (t : T) : Event → Prop
  | .drawn s => s = nthSequence a.count
  | .pend _ _ s => ∃ k, a.last t = some k ∧ s = nthSequence k
  | _ => True

def sequences (T : Type) [DecidableEq T] : Machine T Event (Draws T) where
  next := Draws.next
  ok := Draws.Ok

abbrev drawsOf (tr : Trace T) : Draws T := (sequences T).replay .start tr

/-- no index is used twice -/
structure Draws.Sound (a : Draws T) : Prop where
  nodup : a.used.Nodup
  used_lt : ∀ k ∈ a.used, k < a.count
  last_lt : ∀ t k, a.last t = some k → k < a.count
  fresh : ∀ t k, a.last t = some k → k ∉ a.used
  apart : ∀ t u k, a.last t = some k → a.last u = some k → t = u

theorem Draws.Sound.next {a : Draws T} {t : T} {e : Event} (h : a.Sound) (hok : a.Ok t e) :
    (a.next t e).Sound := by
  cases e with
  | drawn s =>
    have hlast : ∀ u k, (a.next t (.drawn s)).last u = some k →
        (u = t ∧ k = a.count) ∨ (u ≠ t ∧ a.last u = some k) := by
      intro u k hu
      by_cases hut : u = t
      · subst hut
        exact .inl ⟨rfl, by simpa [Draws.next, eq_comm] using hu⟩
      · exact .inr ⟨hut, by simpa [Draws.next, hut] using hu⟩
    refine ⟨h.nodup, fun k hk => Nat.lt_succ_of_lt (h.used_lt k hk), fun u k hu => ?_,
      fun u k hu hk => ?_, fun u v k hu hv => ?_⟩
    · show k < a.count + 1
      rcases hlast u k hu with ⟨-, rfl⟩ | ⟨-, hu⟩
      · omega
      · exact Nat.lt_succ_of_lt (h.last_lt u k hu)
    · rcases hlast u k hu with ⟨-, rfl⟩ | ⟨-, hu⟩
      · exact absurd (h.used_lt _ hk) (Nat.lt_irrefl _)
      · exact h.fresh u k hu hk
    · rcases hlast u k hu with ⟨rfl, rfl⟩ | ⟨-, hu⟩
      · rcases hlast v _ hv with ⟨rfl, -⟩ | ⟨-, hv⟩
        · rfl
        · exact absurd (h.last_lt v _ hv) (Nat.lt_irrefl _)
      · rcases hlast v k hv with ⟨-, hk⟩ | ⟨-, hv'⟩
        · exact absurd (h.last_lt u k hu) (by omega)
        · exact h.apart u v k hu hv'
  | pend i cmd s =>
    obtain ⟨k₀, hk₀, -⟩ := hok
    have hused : (a.next t (.pend i cmd s)).used = k₀ :: a.used := by
      show (a.last t).toList ++ a.used = _
      rw [hk₀]
      rfl
    have hlast : ∀ u k, (a.next t (.pend i cmd s)).last u = some k → u ≠ t ∧ a.last u = some k := by
      intro u k hu
      by_cases hut : u = t
      · subst hut
        simp [Draws.next] at hu
      · exact ⟨hut, by simpa [Draws.next, hut] using hu⟩
    refine ⟨?_, fun k hk => ?_, fun u k hu => h.last_lt u k (hlast u k hu).2, fun u k hu hk => ?_,
      fun u v k hu hv => h.apart u v k (hlast u k hu).2 (hlast v k hv).2⟩
    · rw [hused]
      exact List.nodup_cons.mpr ⟨h.fresh t k₀ hk₀, h.nodup⟩
    · rw [hused] at hk
      rcases List.mem_cons.mp hk with rfl | hk
      · exact h.last_lt t _ hk₀
      · exact h.used_lt k hk
    · rw [hused] at hk
      obtain ⟨hut, hu⟩ := hlast u k hu
      rcases List.mem_cons.mp hk with rfl | hk
      · exact hut (h.apart u t _ hu hk₀)
      · exact h.fresh u k hu hk
  | _ => exact h

theorem Draws.Sound.of_legal {tr : Trace T} (h : (sequences T).Legal .start tr) :
    (drawsOf tr).Sound :=
  h.inv ⟨List.nodup_nil, nofun, nofun, nofun, nofun⟩ fun _ _ _ hb hok => hb.next hok

/-! ## what it says of a history -/

def Event.isDrawn : Event → Bool
  | .drawn _ => true
  | _ => false

/-- how many sequence numbers have been drawn -/
def draws (tr : Trace T) : Nat := tr.countP fun x => x.2.isDrawn

/-- the sequence numbers of the requests, newest first -/
def requested (tr : Trace T) : List U32 :=
  tr.filterMap fun x => match x.2 with
    | .pend _ _ s => some s
    | _ => none

theorem draws_eq (tr : Trace T) : (drawsOf tr).count = draws tr := by
  induction tr with
  | nil => rfl
  | cons x tr ih =>
    obtain ⟨u, e⟩ := x
    show (Draws.next _ u e).count = _
    cases e with
    | drawn s =>
      show (drawsOf tr).count + 1 = _
      rw [ih]
      simp [draws, Event.isDrawn]
    | _ =>
      show (drawsOf tr).count = _
      rw [ih]
      simp [draws, Event.isDrawn]

theorem requested_eq {tr : Trace T} (h : (sequences T).Legal .start tr) :
    requested tr = (drawsOf tr).used.map nthSequence := by
  induction tr with
  | nil => rfl
  | cons x tr ih =>
    obtain ⟨u, e⟩ := x
    have htl := ih h.tail
    cases e with
    | pend i cmd s =>
      obtain ⟨k, hk, rfl⟩ := h.1
      show nthSequence k :: requested tr = List.map _ (((drawsOf tr).last u).toList ++ (drawsOf tr).used)
      rw [hk, htl]
      rfl
    | _ => exact htl

theorem requested_nodup {tr : Trace T} (h : (sequences T).Legal .start tr)
    (hd : draws tr ≤ sequencePeriod) : (requested tr).Nodup := by
  have hs := Draws.Sound.of_legal h
  rw [requested_eq h]
  refine List.Nodup.map_on (fun j hj k hk hjk => ?_) hs.nodup
  have hcount := draws_eq tr
  have hj' := hs.used_lt j hj
  have hk' := hs.used_lt k hk
  exact nthSequence_inj (by omega) (by omega) hjk

theorem requested_ne_zero {tr : Trace T} (h : (sequences T).Legal .start tr) {s : U32}
    (hs : s ∈ requested tr) : s ≠ 0 := by
  rw [requested_eq h] at hs
  obtain ⟨k, -, rfl⟩ := List.mem_map.mp hs
  exact nthSequence_ne_zero k

/-! ## the code keeps to the machine -/

/-- a thread holds `fgSequenceMutex`; it has drawn and `fgNextSequence` may be zero; it is zero;
the number it drew -/
structure SeqG where
  held : Bool := false
  mid : Bool := false
  zero : Bool := false
  drew : Option U32 := none

structure SeqLocal (a : Draws T) (own : Mutex → Option T) (m : Mem) (t : T) (g : SeqG) : Prop where
  held : own .fgSequence = some t ↔ g.held = true
  mid : g.mid = true → g.held = true ∧ ∃ k, a.count = k + 1 ∧ m.fgNextSequence = nthSequence k + 1
  zero : g.zero = true → g.mid = true ∧ m.fgNextSequence = 0
  drew : ∀ s, g.drew = some s → ∃ k, a.last t = some k ∧ s = nthSequence k

structure SeqInv (w : World T Mutex Event Mem) (gs : T → SeqG) : Prop where
  legal : (sequences T).Legal .start w.trace
  next : (∀ t, (gs t).mid = false) → w.mem.fgNextSequence = nthSequence (drawsOf w.trace).count
  thread : ∀ t, SeqLocal (drawsOf w.trace) w.own w.mem t (gs t)

def seqLogic (T : Type) [DecidableEq T] : Logic T Mutex CondVar Event Mem where
  G := SeqG
  K := fun _ => True
  I := SeqInv
  A := fun _ _ _ => True

variable {w : World T Mutex Event Mem} {gs : T → SeqG} {t : T} {g : SeqG}

/-- an access that neither draws a number nor uses one -/
theorem SeqInv.same {m : Mem} {x : Option Event} (h : SeqInv w gs)
    (hm : m.fgNextSequence = w.mem.fgNextSequence)
    (hx : ∀ e, x = some e → (drawsOf w.trace).Ok t e ∧ (drawsOf w.trace).next t e = drawsOf w.trace) :
    SeqInv { w with mem := m, trace := World.push t x w.trace } gs := by
  have hrep : drawsOf (World.push t x w.trace) = drawsOf w.trace := by
    cases x with
    | none => rfl
    | some e => exact (hx e rfl).2
  have hleg : (sequences T).Legal .start (World.push t x w.trace) := by
    cases x with
    | none => exact h.legal
    | some e => exact ⟨(hx e rfl).1, h.legal⟩
  refine ⟨hleg, ?_, fun u => ?_⟩
  · simp only [hrep, hm]
    exact h.next
  · have hu := h.thread u
    simp only [hrep]
    exact { hu with mid := by rw [hm]; exact hu.mid, zero := by rw [hm]; exact hu.zero }

theorem SeqInv.own (h : SeqInv w gs) {own : Mutex → Option T}
    (ho : own .fgSequence = w.own .fgSequence) : SeqInv { w with own := own } gs :=
  ⟨h.legal, h.next, fun u => { h.thread u with held := by simpa only [ho] using (h.thread u).held }⟩

/-- only the holder of `fgSequenceMutex` is in the middle of a draw -/
theorem SeqInv.mid_false (h : SeqInv w gs) {u : T} (hne : w.own .fgSequence ≠ some u) :
    (gs u).mid = false := by
  by_contra hc
  have hmid : (gs u).mid = true := by simpa using hc
  exact hne ((h.thread u).held.mpr ((h.thread u).mid hmid).1)

/-- a step of `t` that the machine does not see, but its ghost does -/
theorem SeqInv.move (h : SeqInv w gs) {own : Mutex → Option T} {m : Mem} {g' : SeqG}
    (hown : own .fgSequence = w.own .fgSequence ∨ w.own .fgSequence = none ∧ own .fgSequence = some t ∨
      w.own .fgSequence = some t ∧ own .fgSequence = none)
    (hm : m.fgNextSequence = w.mem.fgNextSequence ∨ w.own .fgSequence = some t)
    (ht : SeqLocal (drawsOf w.trace) own m t g')
    (hnext : (∀ u, u ≠ t → (gs u).mid = false) → g'.mid = false →
      m.fgNextSequence = nthSequence (drawsOf w.trace).count) :
    SeqInv { w with own := own, mem := m } (Function.update gs t g') := by
  refine ⟨h.legal, fun hall => hnext (fun u hut => ?_) ?_, fun u => ?_⟩
  · simpa [hut] using hall u
  · simpa using hall t
  by_cases hut : u = t
  · subst hut
    simpa using ht
  have hu := h.thread u
  simp only [Function.update_of_ne hut]
  have hheld : own .fgSequence = some u ↔ w.own .fgSequence = some u := by
    rcases hown with ho | ⟨ho, ho'⟩ | ⟨ho, ho'⟩
    · rw [ho]
    · rw [ho, ho']
      simpa using Ne.symm hut
    · rw [ho, ho']
      simpa using Ne.symm hut
  rcases hm with hm | hm
  · exact { hu with
      held := hheld.trans hu.held
      mid := by simpa only [hm] using hu.mid
      zero := by simpa only [hm] using hu.zero }
  · have hno : (gs u).mid = false := h.mid_false (by rw [hm]; simpa using Ne.symm hut)
    exact { hu with
      held := hheld.trans hu.held
      mid := fun hc => by rw [hno] at hc; cases hc
      zero := fun hc => by rw [(hu.zero hc).1] at hno; cases hno }

theorem SeqInv.drawn (h : SeqInv w gs) (hheld : (gs t).held = true) (hmid : (gs t).mid = false) :
    SeqInv (w.act t (fun m => some (.drawn m.fgNextSequence))
        fun m => (m.fgNextSequence, { m with fgNextSequence := m.fgNextSequence + 1 }))
      (Function.update gs t { held := true, mid := true, drew := some w.mem.fgNextSequence }) := by
  have hown := (h.thread t).held.mpr hheld
  have hall : ∀ u, (gs u).mid = false := fun u => by
    by_cases hut : u = t
    · subst hut
      exact hmid
    · exact h.mid_false (by rw [hown]; simpa using Ne.symm hut)
  have hval := h.next hall
  refine ⟨⟨hval, h.legal⟩, fun hc => ?_, fun u => ?_⟩
  · have := hc t
    simp at this
  by_cases hut : u = t
  · subst hut
    simp only [Function.update_self]
    refine ⟨by simpa using hown, fun _ => ⟨rfl, _, rfl, ?_⟩, nofun, fun s hs => ?_⟩
    · show w.mem.fgNextSequence + 1 = _
      rw [hval]
    · cases hs
      exact ⟨_, Function.update_self .., hval⟩
  · have hu := h.thread u
    simp only [Function.update_of_ne hut]
    refine ⟨hu.held, fun hc => ?_, fun hc => ?_, fun s hs => ?_⟩
    · rw [hall u] at hc
      cases hc
    · have := (hu.zero hc).1
      rw [hall u] at this
      cases this
    · obtain ⟨k, hk, rfl⟩ := hu.drew s hs
      exact ⟨k, (Function.update_of_ne hut _ _).trans hk, rfl⟩

/-- a request uses the number its thread drew -/
theorem SeqInv.pend (h : SeqInv w gs) {i : Port} {cmd : Byte} {s : U32}
    (hg : gs t = { drew := some s }) {f : RPPortDevice → RPPortDevice} :
    SeqInv (w.act t (fun _ => some (.pend i cmd s)) fun m => ((), m.setPort i f))
      (Function.update gs t {}) := by
  have ht := h.thread t
  rw [hg] at ht
  obtain ⟨k, hk, hs⟩ := ht.drew s rfl
  refine ⟨⟨⟨k, hk, hs⟩, h.legal⟩, fun hc => ?_, fun u => ?_⟩
  · refine h.next fun u => ?_
    by_cases hut : u = t
    · subst hut
      rw [hg]
    · simpa [hut] using hc u
  by_cases hut : u = t
  · subst hut
    simp only [Function.update_self]
    exact ⟨ht.held, nofun, nofun, nofun⟩
  · have hu := h.thread u
    simp only [Function.update_of_ne hut]
    refine ⟨hu.held, hu.mid, hu.zero, fun s' hs' => ?_⟩
    obtain ⟨k', hk', rfl⟩ := hu.drew s' hs'
    exact ⟨k', (Function.update_of_ne hut _ _).trans hk', rfl⟩

def seqKinds : Set Kind := {k | k ≠ .seq ∧ k ≠ .pend}
def seqMutexes : Set Mutex := {l | l ≠ .fgSequence}

theorem Event.kind_seq {e : Event} {a : Draws T} (h : e.kind ∈ seqKinds) :
    a.Ok t e ∧ a.next t e = a := by
  cases e with
  | drawn s => exact (h.1 rfl).elim
  | pend i cmd s => exact (h.2 rfl).elim
  | _ => exact ⟨trivial, rfl⟩

theorem seq_neutral (t : T) (g : SeqG) :
    (seqLogic T).Neutral (Acc seqKinds) (· ∈ seqMutexes) t g where
  act := by
    intro e f hacc w gs hI _ _
    obtain ⟨k, hk, hstep⟩ := hacc w.mem
    refine SeqInv.same hI (hstep.touches.rest.next hk.1) fun e' he' => Event.kind_seq ?_
    rw [hstep.label e' he']
    exact hk
  acquire := fun hl _ _ hI _ _ => SeqInv.own hI (Function.update_of_ne (Ne.symm hl) _ _)
  release := fun hl _ _ hI _ => SeqInv.own hI (Function.update_of_ne (Ne.symm hl) _ _)
  places := fun _ => ⟨trivial, trivial, fun _ => trivial, trivial⟩

theorem seq_skip {α : Type} {p : P α} {Q : α → SeqG → Prop}
    (hp : Does seqKinds seqMutexes p) (hQ : ∀ a, Q a g) : wp (seqLogic T) t p Q g :=
  wp_all (seq_neutral t g) hp hQ

/-- the number is kept for a request, or forgotten -/
def kept (keep : Bool) (s : U32) : SeqG := { drew := if keep then some s else none }

/-- the end of a draw -/
theorem unlock_draw (keep : Bool) {s : U32} :
    wp (seqLogic T) t (do unlock .fgSequence; return s) (fun s g' => g' = kept keep s)
      { held := true, drew := some s } := by
  refine wp_bind (wp_unlock trivial fun w gs hI hg => ⟨kept keep s, ?_, wp_pure rfl⟩)
  have ht := SeqInv.thread hI t
  rw [hg] at ht
  have hown := ht.held.mpr rfl
  refine SeqInv.move hI (.inr (.inr ⟨hown, by simp⟩)) (.inl rfl) ?_ fun hall _ => ?_
  · refine ⟨by simp [kept], nofun, nofun, fun s' hs' => ht.drew s' ?_⟩
    cases keep
    · cases hs'
    · exact hs'
  · refine SeqInv.next hI fun u => ?_
    by_cases hut : u = t
    · subst hut
      rw [hg]
    · exact hall u hut

theorem nextSequence_seq (keep : Bool) :
    wp (seqLogic T) t nextSequence (fun s g' => g' = kept keep s) {} := by
  refine wp_bind (wp_lock trivial fun w gs hI hg hfree => ⟨{ held := true }, ?_, ?_⟩)
  · have ht := SeqInv.thread hI t
    rw [hg] at ht
    refine SeqInv.move hI (.inr (.inl ⟨hfree, by simp⟩)) (.inl rfl) ?_ fun hall _ => ?_
    · exact { ht with held := by simp, mid := nofun, zero := nofun }
    · exact SeqInv.next hI fun u => SeqInv.mid_false hI (by rw [hfree]; exact nofun)
  refine wp_bind (wp_act fun w gs hI hg _ => ⟨_, SeqInv.drawn hI (by rw [hg]) (by rw [hg]), ?_⟩)
  generalize hs : w.mem.fgNextSequence = s
  refine wp_bind (wp_act fun w gs hI hg _ => ?_)
  have ht := SeqInv.thread hI t
  rw [hg] at ht
  obtain ⟨-, k, hcount, hval⟩ := ht.mid rfl
  have hown := ht.held.mpr rfl
  by_cases hz : w.mem.fgNextSequence = 0
  · refine ⟨{ held := true, mid := true, zero := true, drew := some s }, ?_, ?_⟩
    · refine SeqInv.move hI (.inl rfl) (.inl rfl) ?_ nofun
      exact { ht with zero := fun _ => ⟨rfl, hz⟩ }
    dsimp only
    rw [if_pos hz]
    refine wp_bind (wp_act fun w gs hI hg _ => ⟨{ held := true, drew := some s }, ?_, ?_⟩)
    · have ht := SeqInv.thread hI t
      rw [hg] at ht
      obtain ⟨-, k, hcount, hval⟩ := ht.mid rfl
      have hz := (ht.zero rfl).2
      refine SeqInv.move hI (.inl rfl) (.inr (ht.held.mpr rfl)) ?_ fun _ _ => ?_
      · exact { ht with mid := nofun, zero := nofun }
      · show (1 : U32) = _
        rw [hcount, nthSequence_wrap (by rw [← hval, hz])]
    · exact unlock_draw keep
  · refine ⟨{ held := true, drew := some s }, ?_, ?_⟩
    · refine SeqInv.move hI (.inl rfl) (.inl rfl) ?_ fun _ _ => ?_
      · exact { ht with mid := nofun, zero := nofun }
      · rw [hcount, nthSequence_succ (by rw [← hval]; exact hz), hval]
    dsimp only
    rw [if_neg hz]
    exact wp_bind (wp_pure (unlock_draw keep))

/-! ## one specification for each function -/

theorem seq_quiet : Kind.quiet ∈ seqKinds := ⟨nofun, nofun⟩

theorem seq_lock {l : Mutex} (h : l ≠ .fgSequence) : l ∈ seqMutexes := h

theorem sendFrame_seq (port cmd : Byte) (payload : Buf) (size : Int) (sequence : U32)
    (flags : Byte) (flushNow : Bool) :
    wp (seqLogic T) t (sendFrame port cmd payload size sequence flags flushNow)
      (fun _ g' => g' = {}) {} :=
  seq_skip (sendFrame_all seq_quiet (fun _ => ⟨nofun, nofun⟩) ⟨nofun, nofun⟩ ⟨nofun, nofun⟩
    (seq_lock nofun) (seq_lock nofun) (seq_lock nofun) _ _ _ _ _ _ _) fun _ => rfl

theorem raspikeProtSend_seq (port cmdid : Byte) (buf : Buf) (size : Int) :
    wp (seqLogic T) t (raspikeProtSend port cmdid buf size) (fun _ g' => g' = {}) {} := by
  refine wp_seq _ (nextSequence_seq false) ?_
  rintro s g rfl
  exact sendFrame_seq _ _ _ _ _ _ _

theorem raspikeProtSendPriority_seq (port cmdid : Byte) (buf : Buf) (size : Int) :
    wp (seqLogic T) t (raspikeProtSendPriority port cmdid buf size) (fun _ g' => g' = {}) {} := by
  refine wp_seq _ (nextSequence_seq false) ?_
  rintro s g rfl
  exact sendFrame_seq _ _ _ _ _ _ _

theorem requestBegin_seq (i : Port) (cmd : Byte) :
    wp (seqLogic T) t (requestBegin i cmd) (fun _ g' => g' = {}) {} := by
  refine wp_seq _ (nextSequence_seq true) ?_
  rintro s g rfl
  refine wp_bind (seq_skip (Does.lock (seq_lock nofun)) fun _ => ?_)
  refine wp_bind (wp_act fun w gs hI hg _ => ⟨{}, SeqInv.pend hI hg, ?_⟩)
  exact wp_bind (seq_skip (Does.unlock (seq_lock nofun)) fun _ => wp_pure rfl)

theorem raspikeRequest_seq (port cmd : Byte) (data : Buf) (size : Int) :
    wp (seqLogic T) t (raspikeRequest port cmd data size) (fun _ g' => g' = {}) {} := by
  unfold raspikeRequest
  split
  · exact wp_pure rfl
  split
  · exact wp_pure rfl
  case h_2 i _ =>
    refine wp_bind (seq_skip (Does.lock (seq_lock (by simp))) fun _ => ?_)
    refine wp_call (requestBegin_seq i cmd) fun sequence => ?_
    refine wp_bind (seq_skip (Does.load seq_quiet) fun v2 => ?_)
    refine wp_bind (seq_skip ?_ fun waited => seq_skip ?_ fun _ => rfl)
    · exact requestAttempts_all seq_quiet (fun _ => ⟨by simp, by simp⟩) ⟨by simp, by simp⟩ ⟨by simp, by simp⟩
        ⟨by simp, by simp⟩ (seq_lock (by simp)) (seq_lock (by simp)) (seq_lock (by simp)) (seq_lock (by simp)) _ _ _ _ _ _ _
    · exact requestFinish_all seq_quiet ⟨by simp, by simp⟩ (seq_lock (by simp)) (seq_lock (by simp))
        (seq_lock (by simp)) _ _ _ _

theorem body_seq (c : Call) (hc : ∀ desc, c ≠ .init desc) :
    wp (seqLogic T) t c.body (fun _ g' => g' = {}) {} := by
  have hN : (seqLogic T).Neutral (Acc deviceKinds) (· ∈ deviceMutexes) t {} := by
    refine (seq_neutral t {}).mono (fun e f h m => ?_) fun l hl => ?_
    · obtain ⟨k, hk, hstep⟩ := h m
      refine ⟨k, ?_, hstep⟩
      simp only [deviceKinds, Set.mem_insert_iff, Set.mem_singleton_iff] at hk
      rcases hk with rfl | rfl | rfl | rfl <;> exact ⟨by simp, by simp⟩
    · rcases hl with rfl | ⟨i, rfl⟩ <;> exact seq_lock (by simp)
  have hclient : c.isClient → wp (seqLogic T) t c.body (fun _ g' => g' = {}) {} :=
    body_keeps hN raspikeProtSend_seq raspikeProtSendPriority_seq raspikeRequest_seq
  cases c with
  | init desc => exact (hc desc rfl).elim
  | shutdown =>
    refine wp_bind (seq_skip (raspikeProtShutdown_all ?_ ?_ fun _ => ⟨by simp, by simp⟩) fun _ => wp_pure rfl)
    · intro k hk
      simp only [shutdownKinds, Set.mem_insert_iff, Set.mem_singleton_iff] at hk
      rcases hk with rfl | rfl | rfl | rfl | rfl | rfl | rfl | rfl <;> exact ⟨by simp, by simp⟩
    · rintro l (⟨i, rfl⟩ | ⟨i, rfl⟩ | rfl | rfl | rfl | rfl) <;> exact seq_lock (by simp)
  | receive =>
    refine wp_bind (seq_skip (raspikeProtReceive_all ?_ ?_ (fun _ => ⟨by simp, by simp⟩) ⟨by simp, by simp⟩
      (seq_lock (by simp))) fun _ => wp_pure rfl)
    · intro k hk
      simp only [commandKinds, Set.mem_insert_iff, Set.mem_singleton_iff] at hk
      rcases hk with rfl | rfl | rfl | rfl | rfl | rfl | rfl | rfl <;> exact ⟨by simp, by simp⟩
    · rintro l (⟨i, rfl⟩ | rfl | rfl | rfl) <;> exact seq_lock (by simp)
  | _ => exact hclient rfl

theorem seq_start {m : Mem} (hm : m.fgNextSequence = 1) {calls : T → List Call}
    (hc : NoInit calls) : (seqLogic T).Holds (start m calls) fun _ => {} := by
  refine ⟨⟨trivial, fun _ => hm.trans rfl, fun u => ⟨by simp [start], nofun, nofun, nofun⟩⟩, fun u => ?_⟩
  refine wp_mono (fun _ _ _ => trivial) (client_keeps ?_ (calls u) fun c h => body_seq c (hc u c h))
  refine (seq_neutral u {}).mono (fun e f h m => ?_) fun _ => False.elim
  obtain ⟨k, rfl, hstep⟩ := h m
  exact ⟨.call, ⟨nofun, nofun⟩, hstep⟩

/-- **the code keeps to the machine**: from a connection that has not drawn a number yet -/
theorem sequence_refines {m : Mem} (hm : m.fgNextSequence = 1) {calls : T → List Call}
    (hc : NoInit calls) {c : Sys T} (hr : Reach (start m calls) c) :
    (sequences T).Legal .start c.trace := by
  have hv := hr.via (K := fun _ => True) (fun _ _ h => h) trivial
  obtain ⟨gs, h⟩ := (seqLogic T).reach (seq_start hm hc) hv
  exact h.1.legal

end RaspikeArt
