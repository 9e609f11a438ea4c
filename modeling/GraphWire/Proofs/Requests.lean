/-
  Requests to an input that is refilled.

  To an input with a steady source requests are answered as to one that holds all bytes from
  the start.  Both are at the same place of the stream after every answer
  (`Input.Abreast`), and what comes next depends on that place only.

  * `Input.Ready.skip`: passing over bytes consumes them, a buffer at a time;
  * `Input.abreast_answer`: a request is answered alike from the same place;
  * `Input.answers_refilled`: so are all requests that are made in turn, up to the first
    that fails.
-/
import GraphWire.Proofs.Cursors
import GraphWire.Proofs.Streaming

namespace GraphWire

variable {α : Type}

theorem Error.Alike.kind {e e' : Error} (h : e.Alike e') : e.kind = e'.kind := by
  cases h with
  | refl => rfl
  | underflow => rfl

namespace Input

variable {i j : Input} {m n : Nat}

/-! ## Passing over bytes -/

/-- A result without the bytes that it brings. -/
def discarded : EStateM.Result Error Input Bytes → EStateM.Result Error Input Unit
  | .ok _ i => .ok () i
  | .error e i => .error e i

/-- What comes of passing over `n` bytes: they are consumed, or there are not so many. -/
def Passes (n : Nat) (i : Input) (r : EStateM.Result Error Input Unit) : Prop :=
  ∃ taken, Consumes 8 n i taken ∧ r = discarded taken

theorem Ready.passes_nothing (hi : i.Ready) : Passes 0 i (.ok () i) :=
  ⟨_, hi.consumes_nothing, rfl⟩

/-- To pass over some bytes and then over the rest is to pass over all. -/
theorem Consumes.passes {bs : Bytes} {i₁ : Input} {r : EStateM.Result Error Input Unit}
    (h : Consumes 8 m i (.ok bs i₁)) (hmn : m ≤ n) (hr : Passes (n - m) i₁ r) : Passes n i r := by
  obtain ⟨hm, -, -, hahead, hnative⟩ := h
  obtain ⟨taken, htaken, rfl⟩ := hr
  cases taken with
  | ok bs' i' =>
    obtain ⟨hn, -, hready, hahead', hnative'⟩ := htaken
    rw [hahead, List.length_drop] at hn
    refine ⟨.ok (i.ahead.take n) i', ⟨by omega, rfl, hready, ?_, hnative'.trans hnative⟩, rfl⟩
    rw [hahead', hahead, List.drop_drop, Nat.add_sub_cancel' hmn]
  | error e i' =>
    obtain ⟨hn, he⟩ := htaken
    rw [hahead, List.length_drop] at hn
    exact ⟨.error e i', ⟨by omega, he⟩, rfl⟩

theorem Ready.skipSteps (steps : Nat) (hi : i.Ready) (hn : n ≤ steps) :
    Passes n i (skipSteps steps n i) := by
  induction steps generalizing n i with
  | zero =>
    obtain rfl : n = 0 := by omega
    exact hi.passes_nothing
  | succ steps ih =>
    unfold Input.skipSteps
    by_cases hzero : n = 0
    · rw [if_pos hzero]
      subst hzero
      exact hi.passes_nothing
    rw [if_neg hzero, get_bind]
    have hroom : min n (max i.capacity 1) ≤ i.capacity ∨ i.source = none := by
      cases hsource : i.source with
      | none => exact Or.inr rfl
      | some source =>
        have := (hi.steady source hsource).2
        exact Or.inl (by omega)
    have htake := hi.take hroom
    show Passes n i (EStateM.bind (Input.take _) _ i)
    unfold EStateM.bind
    cases hr : Input.take (min n (max i.capacity 1)) i with
    | ok bs i₁ =>
      rw [hr] at htake
      exact htake.passes (Nat.min_le_left _ _) (ih htake.2.2.1 (by omega))
    | error e i' =>
      rw [hr] at htake
      exact ⟨.error e i', ⟨by have := htake.1; omega, htake.2⟩, rfl⟩

/-- **Bytes are passed over as they are consumed.** -/
theorem Ready.skip (hi : i.Ready) : Passes n i (skip n i) := hi.skipSteps n (Nat.le_refl n)

/-! ## Answers in step -/

/-- Whether a reading does the same on all inputs with the same bytes ahead. -/
abbrev Unmoved (x : Scan α) : Prop := InStep (.without []) (Outruns []) x x

theorem unmoved_of_steady {x : Scan α} (hx : Scan.Steady [] x) : Unmoved x := by
  refine hx.mono ?_ ?_
  · exact fun _ _ he => he.2
  · exact fun _ he => he

theorem unmoved_of_composed {x : Scan α} (hx : x.Composed) : Unmoved x :=
  scanning_outruns.scan hx

theorem unmoved_skip (n : Nat) : Unmoved (skip n) := by
  refine unmoved_of_steady fun i j hij => ?_
  obtain ⟨r, hr, hskip⟩ := hij.left.skip (n := n)
  obtain ⟨r', hr', hskip'⟩ := hij.right.skip (n := n)
  rw [hskip, hskip']
  cases hij.consumes hr hr' with
  | ok _ h => exact .ok () h
  | error he => exact .error he
  | early he => exact .early he

theorem unmoved_atEnd : Unmoved atEnd := by
  intro i j hij
  obtain ⟨i', hi, hr⟩ := hij.left.atEnd
  obtain ⟨j', hj, hr'⟩ := hij.right.atEnd
  have hahead : i.ahead = j.ahead := hij.ahead.trans (List.append_nil _)
  rw [hi, hj, hahead]
  refine .ok _ ⟨hr.supplied, hr'.supplied, ?_, ?_⟩
  · rw [hr.ahead, hr'.ahead, hij.ahead]
  · rw [hr.native, hr'.native, hij.native]

theorem unmoved_answer (r : Request) : Unmoved (answer r) := by
  cases r with
  | item type => exact .map _ (unmoved_of_composed (composed_item type))
  | bytes n => exact .map _ (unmoved_of_composed (.bytes n))
  | into target =>
    refine .map _ ?_
    rcases composed_into target with hc | hnone
    · exact unmoved_of_composed hc
    · rw [hnone]
      exact .throw (.refl _)
  | skip n => exact .map _ (unmoved_skip n)
  | atEnd => exact .map _ unmoved_atEnd

/-! ## Requests in turn -/

/-- Whether two inputs are at the same place of the same stream. -/
structure Abreast (i j : Input) : Prop where
  outruns : i.Outruns [] j
  total : i.total = j.total

/-- What is consumed is no longer ahead. -/
theorem Proceeds.total_add {i' : Input} (h : Proceeds i i') :
    i'.total + i'.ahead.length = i.total + i.ahead.length := by
  obtain ⟨n, hn⟩ := h
  have hle := hn.le
  rw [hn.total, hn.ahead, List.length_drop]
  omega

/-- **A request is answered alike from the same place**, and both inputs are at the same
    place after it. -/
theorem abreast_answer (r : Request) : InStep (.without []) Abreast (answer r) (answer r) := by
  rintro i j ⟨hij, htotal⟩
  have hstep := unmoved_answer r i j hij
  have hi := advancing_answer r i hij.left.fits
  have hj := advancing_answer r j hij.right.fits
  have hahead := congrArg List.length (hij.ahead.trans (List.append_nil _))
  generalize answer r i = a, answer r j = b at hstep hi hj ⊢
  cases hstep with
  | @ok a i' j' hij' =>
    have hi' := hi.total_add
    have hj' := hj.total_add
    have hahead' := congrArg List.length (hij'.ahead.trans (List.append_nil _))
    exact .ok a ⟨hij', by omega⟩
  | error he => exact .error he
  | early he => exact .early he

theorem answers_abreast (requests : List Request) (h : Abreast i j) :
    (answers requests i).1 = (answers requests j).1 ∧
      (answers requests i).2.map Error.kind = (answers requests j).2.map Error.kind := by
  induction requests generalizing i j with
  | nil => exact ⟨rfl, rfl⟩
  | cons r requests ih =>
    have hstep := abreast_answer r i j h
    unfold answers
    generalize answer r i = a, answer r j = b at hstep ⊢
    cases hstep with
    | ok a h' => exact ⟨congrArg₂ List.cons (congrArg (Prod.mk a) h'.total) (ih h').1, (ih h').2⟩
    | error he => exact ⟨rfl, congrArg some he.kind⟩
    | early he => exact absurd rfl he.1

/-- **A refilled input is a cursor over the whole stream.**  In whatever pieces a steady
    source hands out its data, requests made in turn through a buffer with room for every
    number are answered as from the data in memory, each with as many bytes consumed after
    it; the same request is the first to fail, with an error of the same sort, or none is. -/
theorem answers_refilled {source : Source} (hs : source.Steady) {capacity : Nat}
    (hc : 8 ≤ capacity) (native : Bool) (requests : List Request) :
    let refilled := answers requests ((ofSource source capacity).withLayout native)
    let whole := answers requests ((ofBytes source.data).withLayout native)
    refilled.1 = whole.1 ∧ refilled.2.map Error.kind = whole.2.map Error.kind :=
  answers_abreast requests ⟨Engine.outruns_source hs hc native, rfl⟩

/-- A byte, a number in groups, a text that is longer than the buffer, whether this was all,
    and a number more. -/
def surveying : List Request :=
  [.item .u8, .item (.var .i32), .item .string, .atEnd, .item (.scalar .u64)]

/-- They are made of a source in pieces with interruptions, through a buffer of eight. -/
theorem answers_refilled_piecewise :
    let refilled := answers surveying ((ofSource Engine.piecewise 8).withLayout false)
    let whole := answers surveying ((ofBytes Engine.piecewise.data).withLayout false)
    Engine.piecewise.Steady ∧ refilled.1 = whole.1 ∧ whole.1.map Prod.snd = [1, 2, 13, 13] ∧
      refilled.2.map Error.kind = some .bufferUnderflow := by
  intro refilled whole
  have hs : Engine.piecewise.Steady := by decide
  obtain ⟨hanswers, hfailure⟩ := answers_refilled hs (Nat.le_refl 8) false surveying
  exact ⟨hs, hanswers, rfl, hfailure.trans rfl⟩

end Input

end GraphWire
