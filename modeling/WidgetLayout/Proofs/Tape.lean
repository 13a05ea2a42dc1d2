/-
What actions take, piece by piece.

An action that succeeds has taken something from its state: tokens from a source, bytes from a
cursor.  A tape says what is seen of a state and which piece lies between two views.  `Takes` then
says of an action that it succeeds exactly on the pieces of a set, with the results they stand for.
It is closed under sequences and under iteration, so the pieces of a composed action follow from
those of its parts, and no proof about them has to look at a state again.

Soundness and completeness are both in `Takes`: whatever an action took belongs to the set, and
wherever a piece of the set lies ahead the action takes just that piece, whatever follows it.
-/
import WidgetLayout.Progress

namespace WidgetLayout.Progress

variable {ε s v p α β : Type}

/-! ### Sequences -/

theorem bind_of_ok {m : EStateM ε s α} {f : α → EStateM ε s β} {x y : s} {a : α}
    (h : m x = .ok a y) : (m >>= f) x = f a y := by
  show EStateM.bind m f x = _
  unfold EStateM.bind
  rw [h]

theorem bind_of_error {m : EStateM ε s α} {f : α → EStateM ε s β} {x y : s} {e : ε}
    (h : m x = .error e y) : (m >>= f) x = .error e y := by
  show EStateM.bind m f x = _
  unfold EStateM.bind
  rw [h]

theorem bind_eq_ok_iff {m : EStateM ε s α} {f : α → EStateM ε s β} {x z : s} {b : β} :
    (m >>= f) x = .ok b z ↔ ∃ a y, m x = .ok a y ∧ f a y = .ok b z := by
  show EStateM.bind m f x = .ok b z ↔ _
  unfold EStateM.bind
  cases hm : m x with
  | ok a y =>
      constructor
      · intro h
        exact ⟨a, y, rfl, h⟩
      · rintro ⟨a', y', heq, h⟩
        obtain ⟨rfl, rfl⟩ := EStateM.Result.ok.inj heq
        exact h
  | error e y => simp

theorem bind_eq_error_iff {m : EStateM ε s α} {f : α → EStateM ε s β} {x z : s} {e : ε} :
    (m >>= f) x = .error e z ↔ m x = .error e z ∨ ∃ a y, m x = .ok a y ∧ f a y = .error e z := by
  show EStateM.bind m f x = .error e z ↔ _
  unfold EStateM.bind
  cases m x with
  | ok a y => simp [and_assoc]
  | error e' y => simp

theorem map_eq_ok_iff {m : EStateM ε s α} {f : α → β} {x y : s} {b : β} :
    (f <$> m) x = .ok b y ↔ ∃ a, m x = .ok a y ∧ f a = b := by
  show EStateM.map f m x = .ok b y ↔ _
  unfold EStateM.map
  cases hm : m x with
  | ok a y' =>
      constructor
      · intro h
        obtain ⟨rfl, rfl⟩ := EStateM.Result.ok.inj h
        exact ⟨a, rfl, rfl⟩
      · rintro ⟨a', heq, rfl⟩
        obtain ⟨rfl, rfl⟩ := EStateM.Result.ok.inj heq
        rfl
  | error e y' => simp

/-! ### Tapes

Decoding takes bytes and compiling takes tokens.  A tape is what the two have in common: a view of
states, and pieces that are gone from the view once they were taken. -/

/-- A way of looking at states from which pieces are taken. -/
structure Tape (s v p : Type) where
  /-- The states it is about. -/
  Valid : s → Prop
  /-- What is seen of a state. -/
  view : s → v
  /-- The piece lies between the two views. -/
  Moves : v → p → v → Prop
  nil : p
  append : p → p → p
  moves_nil : ∀ x y, Moves x nil y ↔ y = x
  moves_append : ∀ x a b z, Moves x (append a b) z ↔ ∃ y, Moves x a y ∧ Moves y b z
  append_nil : ∀ a, append a nil = a
  nil_append : ∀ a, append nil a = a
  append_assoc : ∀ a b c, append (append a b) c = append a (append b c)

/-- The action succeeds exactly by taking a piece of `F`, whose result is the one that `F` gives
it. -/
structure Takes (T : Tape s v p) (m : EStateM ε s α) (F : α → p → Prop) : Prop where
  valid : ∀ {x a y}, T.Valid x → m x = .ok a y → T.Valid y
  sound : ∀ {x a y}, T.Valid x → m x = .ok a y → ∃ q, F a q ∧ T.Moves (T.view x) q (T.view y)
  complete : ∀ {x a q z}, T.Valid x → F a q → T.Moves (T.view x) q z →
    ∃ y, m x = .ok a y ∧ T.view y = z

namespace Takes

variable {T : Tape s v p} {m : EStateM ε s α} {F G : α → p → Prop}

theorem congr (h : Takes T m F) (hFG : ∀ a q, F a q ↔ G a q) : Takes T m G where
  valid := h.valid
  sound hx hm := by
    obtain ⟨q, hF, hq⟩ := h.sound hx hm
    exact ⟨q, (hFG _ q).mp hF, hq⟩
  complete hx hG hq := h.complete hx ((hFG _ _).mpr hG) hq

/-- An action that leaves the state alone takes nothing. -/
theorem pure (a : α) : Takes T (pure a : EStateM ε s α) fun b q => b = a ∧ q = T.nil where
  valid hx hm := by
    obtain ⟨-, rfl⟩ := EStateM.Result.ok.inj hm
    exact hx
  sound {x b y} _ hm := by
    obtain ⟨rfl, rfl⟩ := EStateM.Result.ok.inj hm
    exact ⟨T.nil, ⟨rfl, rfl⟩, (T.moves_nil _ _).mpr rfl⟩
  complete {x b q z} _ hF hq := by
    obtain ⟨rfl, rfl⟩ := hF
    exact ⟨x, rfl, ((T.moves_nil _ _).mp hq).symm⟩

/-- An action that fails takes nothing at all. -/
theorem throw (e : ε) : Takes T (throw e : EStateM ε s α) fun _ _ => False where
  valid _ hm := nomatch hm
  sound _ hm := nomatch hm
  complete _ hF _ := hF.elim

theorem map (h : Takes T m F) (f : α → β) : Takes T (f <$> m) fun b q => ∃ a, F a q ∧ f a = b where
  valid hx hm := by
    obtain ⟨a, hm, -⟩ := map_eq_ok_iff.mp hm
    exact h.valid hx hm
  sound hx hf := by
    obtain ⟨a, hm, rfl⟩ := map_eq_ok_iff.mp hf
    obtain ⟨q, hF, hq⟩ := h.sound hx hm
    exact ⟨q, ⟨a, hF, rfl⟩, hq⟩
  complete hx hF hq := by
    obtain ⟨a, hF, rfl⟩ := hF
    obtain ⟨y, hm, hy⟩ := h.complete hx hF hq
    exact ⟨y, map_eq_ok_iff.mpr ⟨a, hm, rfl⟩, hy⟩

/-- Two actions in sequence take two pieces in sequence; the second need only be known for results
of the first. -/
theorem bind_of {f : α → EStateM ε s β} {H : α → β → p → Prop} (hm : Takes T m F)
    (hf : ∀ a q, F a q → Takes T (f a) (H a)) :
    Takes T (m >>= f) fun b q => ∃ a q₁ q₂, F a q₁ ∧ H a b q₂ ∧ q = T.append q₁ q₂ where
  valid hx h := by
    obtain ⟨a, y, h₁, h₂⟩ := bind_eq_ok_iff.mp h
    obtain ⟨q, hF, -⟩ := hm.sound hx h₁
    exact (hf a q hF).valid (hm.valid hx h₁) h₂
  sound hx h := by
    obtain ⟨a, y, h₁, h₂⟩ := bind_eq_ok_iff.mp h
    obtain ⟨q₁, hF, hq₁⟩ := hm.sound hx h₁
    obtain ⟨q₂, hH, hq₂⟩ := (hf a q₁ hF).sound (hm.valid hx h₁) h₂
    exact ⟨_, ⟨a, q₁, q₂, hF, hH, rfl⟩, (T.moves_append _ _ _ _).mpr ⟨_, hq₁, hq₂⟩⟩
  complete hx hF hq := by
    obtain ⟨a, q₁, q₂, hF, hH, rfl⟩ := hF
    obtain ⟨w, hq₁, hq₂⟩ := (T.moves_append _ _ _ _).mp hq
    obtain ⟨y, h₁, rfl⟩ := hm.complete hx hF hq₁
    obtain ⟨z, h₂, hz⟩ := (hf a q₁ hF).complete (hm.valid hx h₁) hH hq₂
    exact ⟨z, bind_eq_ok_iff.mpr ⟨a, y, h₁, h₂⟩, hz⟩

theorem bind {f : α → EStateM ε s β} {H : α → β → p → Prop} (hm : Takes T m F)
    (hf : ∀ a, Takes T (f a) (H a)) :
    Takes T (m >>= f) fun b q => ∃ a q₁ q₂, F a q₁ ∧ H a b q₂ ∧ q = T.append q₁ q₂ :=
  hm.bind_of fun a _ _ => hf a

theorem bind_pure (h : Takes T m F) (f : α → β) :
    Takes T (do return f (← m)) fun b q => ∃ a, F a q ∧ f a = b :=
  h.map f

/-- An action that fails where something is missing takes what it takes where it is there. -/
theorem of_option {o : Option β} {H : β → α → p → Prop}
    (hnone : o = none → Takes T m fun _ _ => False) (hsome : ∀ b, o = some b → Takes T m (H b)) :
    Takes T m fun a q => ∃ b, o = some b ∧ H b a q := by
  cases o with
  | none =>
      refine (hnone rfl).congr fun a q => ?_
      simp
  | some b =>
      refine (hsome b rfl).congr fun a q => ?_
      simp

/-- An action that fails where a reading failed takes what it takes where there is a result. -/
theorem of_except {δ : Type} {o : Except δ β} {H : β → α → p → Prop}
    (herror : ∀ e, o = .error e → Takes T m fun _ _ => False)
    (hok : ∀ b, o = .ok b → Takes T m (H b)) : Takes T m fun a q => ∃ b, o = .ok b ∧ H b a q := by
  cases o with
  | error e =>
      refine (herror e rfl).congr fun a q => ?_
      simp
  | ok b =>
      refine (hok b rfl).congr fun a q => ?_
      simp

theorem ite {c : Prop} [Decidable c] {m' : EStateM ε s α} (h : Takes T m F) (h' : Takes T m' G) :
    Takes T (if c then m else m') fun a q => if c then F a q else G a q := by
  by_cases hc : c
  · simpa only [if_pos hc] using h
  · simpa only [if_neg hc] using h'

end Takes

/-! ### Iterations

A loop takes what its rounds take, one after the other. -/

variable {T : Tape s v p} {F : β → β ⊕ α → p → Prop}

/-- Rounds of an iteration that go on, one after the other, with the pieces they take. -/
inductive Chain (T : Tape s v p) (F : β → β ⊕ α → p → Prop) : β → p → β → Prop
  | refl (b : β) : Chain T F b T.nil b
  | head {b b' b'' : β} {q r : p} (hround : F b (.inl b') q) (hrest : Chain T F b' r b'') :
      Chain T F b (T.append q r) b''

theorem Chain.single {b b' : β} {q : p} (h : F b (.inl b') q) : Chain T F b q b' := by
  have hchain := Chain.head h (Chain.refl (T := T) (F := F) b')
  rwa [T.append_nil] at hchain

theorem Chain.trans {b b' b'' : β} {q r : p} (h : Chain T F b q b') (h' : Chain T F b' r b'') :
    Chain T F b (T.append q r) b'' := by
  induction h with
  | refl b =>
      rw [T.nil_append]
      exact h'
  | head hround _ ih =>
      rw [T.append_assoc]
      exact Chain.head hround (ih h')

variable [Measured s] {step : β → EStateM ε s (β ⊕ α)} {hstep : ∀ b, Advances (step b)}

theorem iterateOn_of_error {b : β} {x y : s} {e : ε} (h : step b x = .error e y) :
    iterateOn step hstep b x = .error e y := by
  rw [iterateOn]
  split <;> rename_i he <;> rw [h] at he <;> cases he
  rfl

theorem iterateOn_of_done {b : β} {x y : s} {a : α} (h : step b x = .ok (.inr a) y) :
    iterateOn step hstep b x = .ok a y := by
  rw [iterateOn]
  split <;> rename_i he <;> rw [h] at he <;> cases he
  rfl

theorem iterateOn_of_more {b b' : β} {x y : s} (h : step b x = .ok (.inl b') y) :
    iterateOn step hstep b x = iterateOn step hstep b' y := by
  rw [iterateOn]
  split <;> rename_i he <;> rw [h] at he <;> cases he
  rfl

/-- An iteration is its first round and then, unless that was the last one, an iteration. -/
theorem iterate_eq_bind (b : β) :
    iterate step hstep b = step b >>= fun r =>
      match r with
      | .inl b' => iterate step hstep b'
      | .inr a => pure a := by
  funext x
  show iterateOn step hstep b x = _
  cases hs : step b x with
  | error e y =>
      rw [iterateOn_of_error hs]
      exact (bind_of_error hs).symm
  | ok r y =>
      rw [bind_of_ok hs]
      cases r with
      | inl b' => exact iterateOn_of_more hs
      | inr a => exact iterateOn_of_done hs

/-- Going on for some rounds does not change what an iteration comes to. -/
theorem iterateOn_of_chain (h : ∀ b, Takes T (step b) (F b)) {b b' : β} {q : p}
    (hchain : Chain T F b q b') {x : s} {z : v} (hx : T.Valid x) (hq : T.Moves (T.view x) q z) :
    ∃ y, iterateOn step hstep b x = iterateOn step hstep b' y ∧ T.Valid y ∧ T.view y = z := by
  induction hchain generalizing x with
  | refl b => exact ⟨x, rfl, hx, ((T.moves_nil _ _).mp hq).symm⟩
  | @head b b₁ b₂ q r hround _ ih =>
      obtain ⟨w, hq₁, hq₂⟩ := (T.moves_append _ _ _ _).mp hq
      obtain ⟨y, hy, rfl⟩ := (h b).complete hx hround hq₁
      obtain ⟨y', heq, hvalid, hview⟩ := ih ((h b).valid hx hy) hq₂
      refine ⟨y', ?_, hvalid, hview⟩
      rw [iterateOn_of_more hy]
      exact heq

/-- All rounds of an iteration, the last one included. -/
def Rounds (T : Tape s v p) (F : β → β ⊕ α → p → Prop) (b : β) (a : α) (q : p) : Prop :=
  ∃ b' q₁ q₂, Chain T F b q₁ b' ∧ F b' (.inr a) q₂ ∧ q = T.append q₁ q₂

theorem iterateOn_sound (h : ∀ b, Takes T (step b) (F b)) (b : β) (x : s) (hx : T.Valid x) :
    ∀ a y, iterateOn step hstep b x = .ok a y →
      T.Valid y ∧ ∃ q, Rounds T F b a q ∧ T.Moves (T.view x) q (T.view y) := by
  fun_induction iterateOn step hstep b x with
  | case1 b x e x' hs => intro a y heq; cases heq
  | case2 b x a' x' hs =>
      intro a y heq
      obtain ⟨rfl, rfl⟩ := EStateM.Result.ok.inj heq
      obtain ⟨q, hF, hq⟩ := (h b).sound hx hs
      exact ⟨(h b).valid hx hs, q, ⟨b, T.nil, q, .refl b, hF, (T.nil_append q).symm⟩, hq⟩
  | case3 b x b' x' hs ih =>
      intro a y heq
      obtain ⟨q, hF, hq⟩ := (h b).sound hx hs
      obtain ⟨hy, r, ⟨b'', q₁, q₂, hchain, hlast, rfl⟩, hr⟩ := ih ((h b).valid hx hs) a y heq
      refine ⟨hy, _, ⟨b'', _, q₂, .head hF hchain, hlast, rfl⟩, ?_⟩
      rw [T.append_assoc]
      exact (T.moves_append _ _ _ _).mpr ⟨_, hq, hr⟩

/-- An iteration that fails has gone on for some rounds, and fails in the next one. -/
theorem iterateOn_eq_error (h : ∀ b, Takes T (step b) (F b)) (b : β) (x : s) (hx : T.Valid x)
    {e : ε} {y : s} :
    iterateOn step hstep b x = .error e y → ∃ b' q z, Chain T F b q b' ∧ T.Valid z ∧
      T.Moves (T.view x) q (T.view z) ∧ step b' z = .error e y := by
  fun_induction iterateOn step hstep b x with
  | case1 b x e' x' hs =>
      intro heq
      obtain ⟨rfl, rfl⟩ := EStateM.Result.error.inj heq
      exact ⟨b, T.nil, x, .refl b, hx, (T.moves_nil _ _).mpr rfl, hs⟩
  | case2 b x a x' hs => intro heq; cases heq
  | case3 b x b' x' hs ih =>
      intro heq
      obtain ⟨q, hF, hq⟩ := (h b).sound hx hs
      obtain ⟨b'', r, z, hchain, hz, hr, herror⟩ := ih ((h b).valid hx hs) heq
      exact ⟨b'', T.append q r, z, .head hF hchain, hz,
        (T.moves_append _ _ _ _).mpr ⟨_, hq, hr⟩, herror⟩

/-- An iteration takes what its rounds take. -/
theorem Takes.iterate (h : ∀ b, Takes T (step b) (F b)) (b : β) :
    Takes T (iterate step hstep b) (Rounds T F b) where
  valid hx hm := (iterateOn_sound h b _ hx _ _ hm).1
  sound hx hm := (iterateOn_sound h b _ hx _ _ hm).2
  complete {x a q z} hx hF hq := by
    obtain ⟨b', q₁, q₂, hchain, hlast, rfl⟩ := hF
    obtain ⟨w, hq₁, hq₂⟩ := (T.moves_append _ _ _ _).mp hq
    obtain ⟨y, heq, hy, rfl⟩ :
      ∃ y, iterateOn step hstep b x = iterateOn step hstep b' y ∧ T.Valid y ∧
        T.view y = w := iterateOn_of_chain h hchain hx hq₁
    obtain ⟨y', hy', hview⟩ := (h b').complete hy hlast hq₂
    refine ⟨y', ?_, hview⟩
    show iterateOn step hstep b x = .ok a y'
    rw [heq, iterateOn_of_done hy']

end WidgetLayout.Progress
