import Mathlib.Logic.Function.Basic
import Columnar.Scratch

/-! Buffers lent to calls inside of calls. A closure looks at the buffer it was lent, overwrites it,
makes calls of its own at any point and returns, so that a call is a tree of closures. `alone` says
what it comes to if every call has a new buffer to itself. `run` works on a memory where buffers are
known by their place and one slot is used by all calls; it comes to the same, from whatever state
earlier calls have left, and so does `Scratch.lend`. -/

namespace Columnar.Lending

inductive Closure : Type → Type → Type 1
  | finish {ε α : Type} (result : Except ε α) : Closure ε α
  | look {ε α : Type} (next : Bytes → Closure ε α) : Closure ε α
  | write {ε α : Type} (edit : Bytes → Bytes) (next : Closure ε α) : Closure ε α
  | call {ε α δ β : Type} (size : Nat) (inner : Closure δ β) (next : Except δ β → Closure ε α) :
      Closure ε α

/-- What a buffer held when it was handed out, and before and after a call made meanwhile. -/
inductive Observation
  | handed (size : Nat) (contents : Bytes)
  | resumed (before after : Bytes)
  deriving Repr, DecidableEq

def Observation.Undisturbed : Observation → Prop
  | .handed size contents => contents = List.replicate size 0
  | .resumed before after => after = before

structure Outcome (ε α : Type) where
  result : Except ε α
  left : Bytes
  seen : List Observation

variable {ε α : Type}

namespace Closure

def alone {ε α : Type} : Closure ε α → Bytes → Outcome ε α
  | .finish result, bs => ⟨result, bs, []⟩
  | .look next, bs => (next bs).alone bs
  | .write edit next, bs => next.alone (edit bs)
  | .call size inner next, bs =>
    let o := inner.alone (List.replicate size 0)
    let rest := (next o.result).alone bs
    ⟨rest.result, rest.left, .handed size (List.replicate size 0) :: o.seen ++
      .resumed bs bs :: rest.seen⟩

def action {ε α : Type} : Closure ε α → Buffer → StateM Scratch (Except ε α × Buffer)
  | .finish result, b => pure (result, b)
  | .look next, b => (next b.toList).action b
  | .write edit next, b => next.action (.ofList (edit b.toList))
  | .call size inner next, b => do
    let result ← Scratch.lend size inner.action
    (next result).action b

theorem action_eq_alone (c : Closure ε α) (b : Buffer) (slot : Scratch) :
    (c.action b slot).1.1 = (c.alone b.toList).result := by
  induction c generalizing b slot with
  | finish result => rfl
  | look next ih => exact ih _ b slot
  | write edit next ih =>
    rw [action, ih, Buffer.toList_ofList]
    rfl
  | call size inner next ihInner ihNext =>
    have hlent : (Scratch.lend size inner.action slot).1 =
        (inner.alone (List.replicate size 0)).result := by
      rw [Scratch.lend_apply, ← Buffer.toList_zeroed]
      exact ihInner _ _
    change (((next (Scratch.lend size inner.action slot).1).action b)
      (Scratch.lend size inner.action slot).2).1.1 = _
    rw [hlent, ihNext]
    rfl

theorem lend_action (size : Nat) (c : Closure ε α) (slot : Scratch) :
    (Scratch.lend size c.action slot).1 = (c.alone (List.replicate size 0)).result := by
  rw [Scratch.lend_apply, ← Buffer.toList_zeroed]
  exact c.action_eq_alone _ _

end Closure

/-- Buffers by their place, of which those before `next` were given out. The slot has the place of the
buffer that waits for the next call, if there is one, and is borrowed while it is read or set. -/
structure Memory where
  buffers : Nat → Buffer
  next : Nat
  slot : Option Nat
  borrowed : Bool
  seen : List Observation

namespace Memory

def start : Memory := ⟨fun _ => .empty, 0, none, false, []⟩

def borrow (m : Memory) : Option Memory :=
  if m.borrowed then none else some { m with borrowed := true }

def release (m : Memory) : Memory := { m with borrowed := false }

def store (m : Memory) (p : Nat) (b : Buffer) : Memory :=
  { m with buffers := Function.update m.buffers p b }

def note (m : Memory) (o : Observation) : Memory := { m with seen := m.seen ++ [o] }

def takeOut (m : Memory) : Nat × Memory :=
  match m.slot with
  | some p => (p, { m with slot := none })
  | none => (m.next, { m.store m.next .empty with next := m.next + 1 })

/-- A zeroed buffer of `size` bytes is taken out of the slot. The borrow of the slot ends with that: a
call made while the buffer is out would fail otherwise. -/
def handOut (size : Nat) (m : Memory) : Option (Nat × Memory) := do
  let m ← m.borrow
  let (p, m) := m.takeOut
  let m := m.release
  let m := m.store p ((m.buffers p).clear.resize size)
  some (p, m.note (.handed size (m.buffers p).toList))

def putBack (p : Nat) (m : Memory) : Option Memory := do
  let m ← m.borrow
  some { m with slot := some p }.release

def lend {ρ : Type} (size : Nat) (run : Nat → Memory → Option (ρ × Memory)) (m : Memory) :
    Option (ρ × Memory) := do
  let (p, m) ← m.handOut size
  let (result, m) ← run p m
  let m ← m.putBack p
  some (result, m)

end Memory

def Closure.run {ε α : Type} : Closure ε α → Nat → Memory → Option (Except ε α × Memory)
  | .finish result, _, m => some (result, m)
  | .look next, p, m => (next (m.buffers p).toList).run p m
  | .write edit next, p, m => next.run p (m.store p (.ofList (edit (m.buffers p).toList)))
  | .call size inner next, p, m => do
    let (result, after) ← m.lend size inner.run
    (next result).run p
      (after.note (.resumed (m.buffers p).toList (after.buffers p).toList))

namespace Memory

variable {m m₁ m₂ : Memory} {p q : Nat}

/-- The place was given out and does not wait in the slot: a closure may be at work there. -/
def Lent (m : Memory) (p : Nat) : Prop := p < m.next ∧ m.slot ≠ some p

structure Sound (m : Memory) : Prop where
  free : m.borrowed = false
  slot_lt : ∀ p, m.slot = some p → p < m.next
  seen : ∀ o ∈ m.seen, o.Undisturbed

/-- What is lent stays lent, and nothing of it is changed but what is at a place of `touched`. -/
structure Spares (m m' : Memory) (touched : Nat → Prop) : Prop where
  lent : ∀ q, m.Lent q → m'.Lent q
  same : ∀ q, m.Lent q → ¬touched q → m'.buffers q = m.buffers q

theorem Spares.trans {t : Nat → Prop} (h : m.Spares m₁ t) (k : m₁.Spares m₂ t) :
    m.Spares m₂ t where
  lent q hq := k.lent q (h.lent q hq)
  same q hq ht := (k.same q (h.lent q hq) ht).trans (h.same q hq ht)

theorem store_self (m : Memory) (p : Nat) (b : Buffer) : (m.store p b).buffers p = b :=
  Function.update_self ..

theorem Sound.note {o : Observation} (h : m.Sound) (ho : o.Undisturbed) : (m.note o).Sound := by
  refine ⟨h.free, h.slot_lt, ?_⟩
  intro o' hmem
  rcases List.mem_append.1 hmem with hmem | hmem
  · exact h.seen o' hmem
  · obtain rfl := List.mem_singleton.1 hmem
    exact ho

theorem start_sound : start.Sound where
  free := rfl
  slot_lt p h := by cases h
  seen o h := by cases h

theorem borrow_of_free (h : m.borrowed = false) : m.borrow = some { m with borrowed := true } := by
  rw [borrow, h]
  rfl

theorem takeOut_eq (h : ∀ p, m.slot = some p → p < m.next) : ∃ p m', m.takeOut = (p, m') ∧
    m'.slot = none ∧ p < m'.next ∧ m.next ≤ m'.next ∧ ¬m.Lent p ∧
      (∀ q, m.Lent q → m'.buffers q = m.buffers q) ∧ m'.seen = m.seen := by
  cases hslot : m.slot with
  | none =>
    refine ⟨m.next, { m.store m.next .empty with next := m.next + 1 }, by rw [takeOut, hslot], hslot,
      Nat.lt_succ_self _, Nat.le_succ _, fun hl => Nat.lt_irrefl _ hl.1, ?_, rfl⟩
    intro q hq
    exact Function.update_of_ne (Nat.ne_of_lt hq.1) _ _
  | some p =>
    exact ⟨p, { m with slot := none }, by rw [takeOut, hslot], rfl, h p hslot, Nat.le_refl _,
      fun hl => hl.2 hslot, fun _ _ => rfl, rfl⟩

theorem handOut_eq (hm : m.Sound) (size : Nat) : ∃ p m', m.handOut size = some (p, m') ∧ m'.Sound ∧
    m'.Lent p ∧ ¬m.Lent p ∧ m'.buffers p = .zeroed size ∧ m.Spares m' (fun _ => False) ∧
      m'.seen = m.seen ++ [.handed size (List.replicate size 0)] := by
  have hslot : ∀ p, { m with borrowed := true }.slot = some p → p < m.next := hm.slot_lt
  obtain ⟨p, m₁, htake, hnone, hp, hle, hfresh, hsame, hseen⟩ := takeOut_eq hslot
  have hzero : (m₁.buffers p).clear.resize size = .zeroed size := Buffer.resize_clear _ size
  have hput := store_self m₁.release p (.zeroed size)
  have hout : m₁.slot ≠ some p := by
    rw [hnone]
    exact nofun
  have hsound : (m₁.release.store p (.zeroed size)).Sound :=
    ⟨rfl, fun q hq => (nomatch hnone.symm.trans hq), hseen ▸ hm.seen⟩
  refine ⟨p, (m₁.release.store p (.zeroed size)).note (.handed size (List.replicate size 0)), ?_,
    hsound.note rfl, ⟨hp, hout⟩, hfresh, hput, ⟨?_, ?_⟩, ?_⟩
  · rw [handOut, borrow_of_free hm.free]
    simp only [Option.bind_eq_bind, Option.bind_some, htake]
    change some (p, (m₁.release.store p ((m₁.buffers p).clear.resize size)).note (.handed size
      ((m₁.release.store p ((m₁.buffers p).clear.resize size)).buffers p).toList)) = _
    rw [hzero, hput, Buffer.toList_zeroed]
  · intro q hq
    exact ⟨Nat.lt_of_lt_of_le hq.1 hle, fun h => (nomatch hnone.symm.trans h)⟩
  · intro q hq _
    have hne : q ≠ p := fun h => hfresh (h ▸ hq)
    exact (Function.update_of_ne hne _ _).trans (hsame q hq)
  · exact congrArg (· ++ [_]) hseen

theorem putBack_eq (hm : m.Sound) (hp : m.Lent p) : ∃ m', m.putBack p = some m' ∧ m'.Sound ∧
    m'.buffers = m.buffers ∧ (∀ q, m.Lent q → q ≠ p → m'.Lent q) ∧ m'.seen = m.seen := by
  refine ⟨{ m with slot := some p }.release, ?_, ?_, rfl, ?_, rfl⟩
  · rw [putBack, borrow_of_free hm.free]
    rfl
  · exact ⟨rfl, fun q hq => Option.some.inj hq ▸ hp.1, hm.seen⟩
  · intro q hq hne
    exact ⟨hq.1, fun h => hne (Option.some.inj h).symm⟩

/-- On a lent buffer with the bytes `bs`, `run` comes to `outcome` and touches no other lent one. -/
def Comes {ε α : Type} (run : Nat → Memory → Option (Except ε α × Memory)) (bs : Bytes)
    (outcome : Outcome ε α) : Prop :=
  ∀ m p, m.Sound → m.Lent p → (m.buffers p).toList = bs → ∃ m',
    run p m = some (outcome.result, m') ∧ m'.Sound ∧ m.Spares m' (· = p) ∧
      (m'.buffers p).toList = outcome.left ∧ m'.seen = m.seen ++ outcome.seen

theorem lend_of_comes {run : Nat → Memory → Option (Except ε α × Memory)} {size : Nat}
    {outcome : Outcome ε α} (hrun : Comes run (List.replicate size 0) outcome) (hm : m.Sound) :
    ∃ m', m.lend size run = some (outcome.result, m') ∧ m'.Sound ∧ m.Spares m' (fun _ => False) ∧
      m'.seen = m.seen ++ .handed size (List.replicate size 0) :: outcome.seen := by
  obtain ⟨p, m₁, hout, hsound₁, hlent, hfresh, hzero, hspares₁, hseen₁⟩ := handOut_eq hm size
  obtain ⟨m₂, hresult, hsound₂, hspares₂, -, hseen₂⟩ :=
    hrun m₁ p hsound₁ hlent (by rw [hzero, Buffer.toList_zeroed])
  obtain ⟨m₃, hback, hsound₃, hbuffers, hkept, hseen₃⟩ := putBack_eq hsound₂ (hspares₂.lent p hlent)
  have hne : ∀ q, m.Lent q → q ≠ p := fun q hq h => hfresh (h ▸ hq)
  refine ⟨m₃, ?_, hsound₃, ⟨?_, ?_⟩, ?_⟩
  · simp only [lend, hout, hresult, hback, Option.bind_eq_bind, Option.bind_some]
  · intro q hq
    exact hkept q (hspares₂.lent q (hspares₁.lent q hq)) (hne q hq)
  · intro q hq hnot
    rw [hbuffers, hspares₂.same q (hspares₁.lent q hq) (hne q hq), hspares₁.same q hq hnot]
  · rw [hseen₃, hseen₂, hseen₁, List.append_assoc]
    rfl

theorem comes_run (c : Closure ε α) (bs : Bytes) : Comes c.run bs (c.alone bs) := by
  -- By induction on the tree. An inner call touches no lent buffer, and that of `c` is lent; `c`
  -- itself touches no other, so that the closure around it can say the same of its own buffer.
  induction c generalizing bs with
  | finish result =>
    intro m p hm hp hbs
    exact ⟨m, rfl, hm, ⟨fun _ h => h, fun _ _ _ => rfl⟩, hbs, (List.append_nil _).symm⟩
  | look next ih =>
    intro m p hm hp hbs
    rw [Closure.run, hbs]
    exact ih bs bs m p hm hp hbs
  | write edit next ih =>
    intro m p hm hp hbs
    have hnew : ((m.store p (.ofList (edit bs))).buffers p).toList = edit bs := by
      rw [store_self, Buffer.toList_ofList]
    obtain ⟨m', hresult, hsound, hspares, hleft, hseen⟩ := ih (edit bs) (m.store p (.ofList (edit bs)))
      p ⟨hm.free, hm.slot_lt, hm.seen⟩ hp hnew
    have hstore : m.Spares (m.store p (.ofList (edit bs))) (· = p) :=
      ⟨fun _ h => h, fun _ _ hne => Function.update_of_ne hne _ _⟩
    refine ⟨m', ?_, hsound, hstore.trans hspares, hleft, hseen⟩
    rw [Closure.run, hbs]
    exact hresult
  | call size inner next ihInner ihNext =>
    intro m p hm hp hbs
    obtain ⟨m₁, hlend, hsound₁, hspares₁, hseen₁⟩ := lend_of_comes (ihInner (List.replicate size 0)) hm
    have hsame : (m₁.buffers p).toList = bs := by rw [hspares₁.same p hp not_false, hbs]
    obtain ⟨m₂, hresult, hsound₂, hspares₂, hleft, hseen₂⟩ :=
      ihNext _ bs (m₁.note (.resumed bs bs)) p (hsound₁.note rfl) (hspares₁.lent p hp) hsame
    refine ⟨m₂, ?_, hsound₂, ⟨?_, ?_⟩, hleft, ?_⟩
    · simp only [Closure.run, hlend, Option.bind_eq_bind, Option.bind_some, hbs, hsame]
      exact hresult
    · intro q hq
      exact hspares₂.lent q (hspares₁.lent q hq)
    · intro q hq hne
      exact (hspares₂.same q (hspares₁.lent q hq) hne).trans (hspares₁.same q hq not_false)
    · rw [hseen₂, note, hseen₁]
      simp only [Closure.alone, List.append_assoc, List.cons_append, List.nil_append]

end Memory

structure Request where
  {ε α : Type}
  size : Nat
  closure : Closure ε α

def Memory.after (m : Memory) : List Request → Option Memory
  | [] => some m
  | r :: rs => do
    let (_, m) ← m.lend r.size r.closure.run
    m.after rs

theorem Memory.Sound.after {m : Memory} (hm : m.Sound) (history : List Request) :
    ∃ m', m.after history = some m' ∧ m'.Sound := by
  induction history generalizing m with
  | nil => exact ⟨m, rfl, hm⟩
  | cons r rs ih =>
    obtain ⟨m₁, hlend, hsound, -, -⟩ := lend_of_comes (comes_run r.closure (List.replicate r.size 0)) hm
    obtain ⟨m₂, hafter, hsound₂⟩ := ih hsound
    refine ⟨m₂, ?_, hsound₂⟩
    simp only [Memory.after, hlend, Option.bind_eq_bind, Option.bind_some]
    exact hafter

/-- After any calls, a call gives what its closure gives when it and every call inside of it have
zeroed buffers of their own: that is what all of them were handed, what they put there was still
there after their calls, and the slot is free for the next one. -/
theorem nested_calls_undisturbed (history : List Request) (size : Nat) (c : Closure ε α) :
    let outcome := c.alone (List.replicate size 0)
    (∃ m m', Memory.start.after history = some m ∧
      m.lend size c.run = some (outcome.result, m') ∧
      m'.seen = m.seen ++ .handed size (List.replicate size 0) :: outcome.seen ∧
      (∀ o ∈ m'.seen, o.Undisturbed) ∧ m'.borrowed = false) ∧
    ∀ slot, (Scratch.lend size c.action slot).1 = outcome.result := by
  intro outcome
  obtain ⟨m, hafter, hm⟩ := Memory.start_sound.after history
  obtain ⟨m', hlend, hsound, -, hseen⟩ :=
    Memory.lend_of_comes (Memory.comes_run c (List.replicate size 0)) hm
  exact ⟨⟨m, m', hafter, hlend, hseen, hsound.seen, hsound.free⟩, c.lend_action size⟩

def failing : Closure String Bytes := .write (fun bs => bs.map fun _ => 0xFF) (.finish (.error "bad"))

def lookingAgain : Closure String Bytes :=
  .write (fun bs => bs.map fun _ => 1) (.call 5 failing fun _ => .look fun bs => .finish (.ok bs))

theorem lookingAgain_undisturbed : ∃ m m', Memory.start.after [⟨8, failing⟩] = some m ∧
    m.lend 3 lookingAgain.run = some (.ok [1, 1, 1], m') ∧
    m'.seen = m.seen ++ [.handed 3 [0, 0, 0], .handed 5 [0, 0, 0, 0, 0],
      .resumed [1, 1, 1] [1, 1, 1]] ∧
    Observation.Undisturbed (.resumed [1, 1, 1] [1, 1, 1]) := by
  obtain ⟨⟨m, m', hafter, hlend, hseen, hall, -⟩, -⟩ :=
    nested_calls_undisturbed [⟨8, failing⟩] 3 lookingAgain
  refine ⟨m, m', hafter, hlend, hseen, hall _ ?_⟩
  rw [hseen]
  exact List.mem_append_right _ (by decide)

end Columnar.Lending
