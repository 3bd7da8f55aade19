import ReceiptReview.Program.Basic

/-!
# Transcripts

The transcript of a program is the list of its requests so far, each with the
answer it got.  `along possible allows p post past` says of a program `p` that has
the transcript `past`: whatever the answers will be, as long as they are possible,
each request is made after a transcript that allows it, and each outcome is
reached after a transcript that satisfies `post`.

`Proceeds goesOn p` says what follows each request of `p`, whatever was answered before.

No state of the environment occurs here, so what holds along a program does not
depend on what runs beside it.
-/

/-- A request with its answer. -/
structure Exchange (Req : Type) (Ans : Req → Type) where
  request : Req
  answer : Ans request

/-- The exchanges of a program, the newest first. -/
abbrev Transcript (Req : Type) (Ans : Req → Type) : Type := List (Exchange Req Ans)

namespace Program

variable {Req : Type} {Ans : Req → Type} {ε α β : Type}

section Along

variable (possible : (r : Req) → Ans r → Prop) (allows : Transcript Req Ans → Req → Prop)

def along : Program Req Ans ε α → (Except ε α → Transcript Req Ans → Prop) →
    Transcript Req Ans → Prop
  | done result, post, past => post result past
  | call r next, post, past =>
      allows past r ∧
        ∀ answer, possible r answer → along (next answer) post (⟨r, answer⟩ :: past)

variable {possible allows} {past : Transcript Req Ans}

theorem along_mono {p : Program Req Ans ε α} {post post' : Except ε α → Transcript Req Ans → Prop}
    (h : along possible allows p post past)
    (himp : ∀ result past', post result past' → post' result past') :
    along possible allows p post' past := by
  induction p generalizing past with
  | done result => exact himp _ _ h
  | call r next ih => exact ⟨h.1, fun answer hanswer => ih answer (h.2 answer hanswer)⟩

/-- What the requests allow may depend on the transcript that they extend. -/
theorem along_imp {allows' : Transcript Req Ans → Req → Prop} {p : Program Req Ans ε α}
    {post post' : Except ε α → Transcript Req Ans → Prop} (h : along possible allows p post past)
    (hallows : ∀ past' r, past <:+ past' → allows past' r → allows' past' r)
    (hpost : ∀ result past', past <:+ past' → post result past' → post' result past') :
    along possible allows' p post' past := by
  induction p generalizing past with
  | done result => exact hpost result past List.suffix_rfl h
  | call r next ih =>
      refine ⟨hallows past r List.suffix_rfl h.1, fun answer hanswer =>
        ih answer (h.2 answer hanswer) (fun past' r' hlater => ?_) fun result past' hlater => ?_⟩
      · exact hallows past' r' ((List.suffix_cons _ _).trans hlater)
      · exact hpost result past' ((List.suffix_cons _ _).trans hlater)

/-- The postcondition of the first part of a sequence. -/
def thenAlong (possible : (r : Req) → Ans r → Prop)
    (allows : Transcript Req Ans → Req → Prop) (f : α → Program Req Ans ε β)
    (post : Except ε β → Transcript Req Ans → Prop) : Except ε α → Transcript Req Ans → Prop
  | .ok a, past => along possible allows (f a) post past
  | .error e, past => post (.error e) past

/-- The postcondition of a guarded body. -/
def elseAlong (possible : (r : Req) → Ans r → Prop)
    (allows : Transcript Req Ans → Req → Prop) (handler : ε → Program Req Ans ε α)
    (post : Except ε α → Transcript Req Ans → Prop) : Except ε α → Transcript Req Ans → Prop
  | .ok a, past => post (.ok a) past
  | .error e, past => along possible allows (handler e) post past

theorem along_bind {p : Program Req Ans ε α} {f : α → Program Req Ans ε β}
    {post : Except ε β → Transcript Req Ans → Prop} :
    along possible allows (p >>= f) post past ↔
      along possible allows p (thenAlong possible allows f post) past := by
  show along possible allows (p.bind f) post past ↔ _
  induction p generalizing past with
  | done result => cases result <;> rfl
  | call r next ih =>
      simp only [bind, along]
      exact and_congr_right fun _ => forall₂_congr fun answer _ => ih answer

theorem along_tryCatch {p : Program Req Ans ε α} {handler : ε → Program Req Ans ε α}
    {post : Except ε α → Transcript Req Ans → Prop} :
    along possible allows (p.tryCatch handler) post past ↔
      along possible allows p (elseAlong possible allows handler post) past := by
  induction p generalizing past with
  | done result => cases result <;> rfl
  | call r next ih =>
      simp only [tryCatch, along]
      exact and_congr_right fun _ => forall₂_congr fun answer _ => ih answer

theorem along_tryFinally {p : Program Req Ans ε α} {q : Program Req Ans ε Unit}
    {post : Except ε α → Transcript Req Ans → Prop} :
    along possible allows (p.tryFinally q) post past ↔
      along possible allows p
        (fun result => along possible allows (q.bind fun _ => .done result) post) past := by
  induction p generalizing past with
  | done result => rfl
  | call r next ih =>
      simp only [tryFinally, along]
      exact and_congr_right fun _ => forall₂_congr fun answer _ => ih answer

@[simp] theorem along_ofExcept {result : Except ε α}
    {post : Except ε α → Transcript Req Ans → Prop} :
    along possible allows (ofExcept result) post past ↔ post result past := Iff.rfl

end Along

section Proceeds

/-- At each request that the program may come to, what goes on after the answers is as
`goesOn` says. -/
def Proceeds (goesOn : (r : Req) → (Ans r → Program Req Ans ε α) → Prop) :
    Program Req Ans ε α → Prop
  | done _ => True
  | call r next => goesOn r next ∧ ∀ answer, Proceeds goesOn (next answer)

/-- The program only makes requests that are allowed. -/
abbrev Requests (allowed : Req → Prop) (p : Program Req Ans ε α) : Prop :=
  p.Proceeds fun r _ => allowed r

variable {allowed : Req → Prop} {goesOn : (r : Req) → (Ans r → Program Req Ans ε α) → Prop}

theorem Requests.proceeds {p : Program Req Ans ε α} (h : p.Requests allowed)
    (hallowed : ∀ r next, allowed r → goesOn r next) : p.Proceeds goesOn := by
  induction p with
  | done _ => trivial
  | call r next ih => exact ⟨hallowed r next h.1, fun answer => ih answer (h.2 answer)⟩

/-- A program whose requests are allowed after every transcript. -/
theorem Requests.along {possible : (r : Req) → Ans r → Prop}
    {allows : Transcript Req Ans → Req → Prop} {p : Program Req Ans ε α} (h : p.Requests allowed)
    (hallows : ∀ past r, allowed r → allows past r) (past : Transcript Req Ans) :
    Program.along possible allows p (fun _ _ => True) past := by
  induction p generalizing past with
  | done _ => trivial
  | call r next ih => exact ⟨hallows past r h.1, fun answer _ => ih answer (h.2 answer) _⟩

/-- The part of a program before the requests that matter. -/
theorem proceeds_bind {goesOn : (r : Req) → (Ans r → Program Req Ans ε β) → Prop}
    {p : Program Req Ans ε α} {f : α → Program Req Ans ε β} (hp : p.Requests allowed)
    (hallowed : ∀ r next, allowed r → goesOn r next) (hf : ∀ a, (f a).Proceeds goesOn) :
    (p >>= f).Proceeds goesOn := by
  show (p.bind f).Proceeds goesOn
  induction p with
  | done result =>
      cases result with
      | ok a => exact hf a
      | error e => trivial
  | call r next ih => exact ⟨hallowed r _ hp.1, fun answer => ih answer (hp.2 answer)⟩

theorem requests_bind {p : Program Req Ans ε α} {f : α → Program Req Ans ε β}
    (hp : p.Requests allowed) (hf : ∀ a, (f a).Requests allowed) : (p >>= f).Requests allowed :=
  proceeds_bind hp (fun _ _ hallowed => hallowed) hf

theorem requests_tryCatch {p : Program Req Ans ε α} {handler : ε → Program Req Ans ε α}
    (hp : p.Requests allowed) (hhandler : ∀ e, (handler e).Requests allowed) :
    (p.tryCatch handler).Requests allowed := by
  induction p with
  | done result =>
      cases result with
      | ok a => trivial
      | error e => exact hhandler e
  | call r next ih => exact ⟨hp.1, fun answer => ih answer (hp.2 answer)⟩

theorem requests_tryFinally {p : Program Req Ans ε α} {q : Program Req Ans ε Unit}
    (hp : p.Requests allowed) (hq : q.Requests allowed) : (p.tryFinally q).Requests allowed := by
  induction p with
  | done result => exact requests_bind hq fun _ => trivial
  | call r next ih => exact ⟨hp.1, fun answer => ih answer (hp.2 answer)⟩

end Proceeds

end Program
