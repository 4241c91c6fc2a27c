import StoreBench.Proofs.Encoding
/-!
# Protocols

A protocol says which requests a program may make, given what it has been answered, and which
answers it may rely on. That a program follows a protocol is a statement about the program alone,
without a state to run it in, and it follows through sequencing from the same about its parts.
Whoever answers as the protocol expects knows every request that will come and what the program ends
with, also when other programs make their requests in between.
-/

namespace StoreBench

variable {ι : Interface} {κ α β : Type}

/-- The rules between a program and those who answer it. What the program knows is a `κ`. -/
structure Protocol (ι : Interface) (κ : Type) where
  allows : κ → ι.Request → Prop
  expects : κ → (request : ι.Request) → ι.Answer request → Prop
  /-- What is known after an answer. -/
  next : κ → (request : ι.Request) → ι.Answer request → κ

/-- The rules of those who make no requests. -/
def Protocol.silent : Protocol ι Unit where
  allows _ _ := False
  expects _ _ _ := True
  next _ _ _ := ()

namespace Program

/-- The program makes allowed requests only, whatever expected answers it is given, and ends as told
with what it knows then. -/
def Follows (P : Protocol ι κ) (ends : κ → α → Prop) : κ → Program ι α → Prop
  | k, done a => ends k a
  | k, note _ rest => rest.Follows P ends k
  | k, ask request rest => P.allows k request ∧ ∀ answer, P.expects k request answer →
      (rest answer).Follows P ends (P.next k request answer)

variable {P : Protocol ι κ} {ends ends' : κ → α → Prop} {k : κ}

@[simp] theorem follows_done {a : α} : (done a : Program ι α).Follows P ends k ↔ ends k a := Iff.rfl

@[simp] theorem follows_note {event : Event} {p : Program ι α} :
    (note event p).Follows P ends k ↔ p.Follows P ends k := Iff.rfl

@[simp] theorem follows_ask {request : ι.Request} {rest : ι.Answer request → Program ι α} :
    (ask request rest).Follows P ends k ↔ P.allows k request ∧ ∀ answer,
      P.expects k request answer → (rest answer).Follows P ends (P.next k request answer) := Iff.rfl

theorem Follows.imp {p : Program ι α} (h : p.Follows P ends k)
    (himp : ∀ k a, ends k a → ends' k a) : p.Follows P ends' k := by
  induction p generalizing k with
  | done a => exact himp k a h
  | note event rest ih => exact ih h
  | ask request rest ih => exact ⟨h.1, fun answer hanswer => ih answer (h.2 answer hanswer)⟩

/-- A program that follows a protocol follows one that differs in allowing more. -/
theorem Follows.weaken {Q : Protocol ι κ} {p : Program ι α} (h : p.Follows P ends k)
    (hallows : ∀ k request, P.allows k request → Q.allows k request)
    (hexpects : Q.expects = P.expects) (hnext : Q.next = P.next) : p.Follows Q ends k := by
  induction p generalizing k with
  | done a => exact h
  | note event rest ih => exact ih h
  | ask request rest ih =>
    refine ⟨hallows k request h.1, fun answer hanswer => ?_⟩
    rw [hexpects] at hanswer
    rw [hnext]
    exact ih answer (h.2 answer hanswer)

/-- What follows a part is to follow from where the part ends. -/
theorem follows_bind {p : Program ι β} {f : β → Program ι α} :
    (p >>= f).Follows P ends k ↔ p.Follows P (fun k b => (f b).Follows P ends k) k := by
  induction p generalizing k with
  | done b => exact Iff.rfl
  | note event rest ih => exact ih
  | ask request rest ih =>
    exact and_congr_right fun _ => forall_congr' fun answer => imp_congr_right fun _ => ih answer

@[simp] theorem follows_click {sensor : Sensor} {ends : κ → Unit → Prop} :
    (click sensor : Program ι Unit).Follows P ends k ↔ ends k () := Iff.rfl

@[simp] theorem follows_log {level : LogLevel} {message : String} {ends : κ → Unit → Prop} :
    (log level message : Program ι Unit).Follows P ends k ↔ ends k () := Iff.rfl

theorem follows_call {request : ι.Request} {ends : κ → ι.Answer request → Prop} :
    (call request).Follows P ends k ↔ P.allows k request ∧ ∀ answer,
      P.expects k request answer → ends (P.next k request answer) answer := Iff.rfl

/-- Programs that follow a protocol from wherever they start do so one after another. -/
theorem follows_mapM {f : β → Program ι α} {ok : α → Prop} {xs : List β}
    (h : ∀ x ∈ xs, ∀ k, (f x).Follows P (fun _ a => ok a) k) (k : κ) :
    (xs.mapM f).Follows P (fun _ as => ∀ a ∈ as, ok a) k := by
  induction xs generalizing k with
  | nil => simp
  | cons x xs ih =>
    have hrest := ih fun y hy => h y (List.mem_cons_of_mem x hy)
    rw [List.mapM_cons, follows_bind]
    refine (h x List.mem_cons_self k).imp fun k a ha => ?_
    rw [follows_bind]
    exact (hrest k).imp fun _ as has => List.forall_mem_cons.2 ⟨ha, has⟩

/-- A program interpreted by one who answers as expected, and whose record of events does not
matter, ends as it should. -/
theorem interpret_follows {τ : Type} {I : κ → τ → Prop} {record : Event → StateM τ Unit}
    {reply : (request : ι.Request) → StateM τ (ι.Answer request)}
    (hrecord : ∀ event k t, I k t → I k ((record event).run t).2)
    (hreply : ∀ k request t, P.allows k request → I k t →
      P.expects k request ((reply request).run t).1 ∧
        I (P.next k request ((reply request).run t).1) ((reply request).run t).2)
    {p : Program ι α} (hp : p.Follows P ends k) {t : τ} (h : I k t) :
    ∃ k', ends k' ((p.interpret record reply).run t).1 ∧
      I k' ((p.interpret record reply).run t).2 := by
  induction p generalizing k t with
  | done a => exact ⟨k, hp, h⟩
  | note event rest ih => exact ih hp (hrecord event k t h)
  | ask request rest ih =>
    obtain ⟨hexpected, hnext⟩ := hreply k request t hp.1 h
    exact ih _ (hp.2 _ hexpected) hnext

/-- A program evaluated against a state that answers as expected ends as it should. -/
theorem evaluate_follows {σ : Type} {I : κ → σ → Prop}
    (answer : (request : ι.Request) → σ → ι.Answer request × σ)
    (hanswer : ∀ k request s, P.allows k request → I k s →
      P.expects k request (answer request s).1 ∧
        I (P.next k request (answer request s).1) (answer request s).2)
    {p : Program ι α} (hp : p.Follows P ends k) {s : σ} (h : I k s) :
    ∃ k', ends k' (p.evaluate answer s).1 ∧ I k' (p.evaluate answer s).2 := by
  induction p generalizing k s with
  | done a => exact ⟨k, hp, h⟩
  | note event rest ih => exact ih hp h
  | ask request rest ih =>
    obtain ⟨hexpected, hnext⟩ := hanswer k request s hp.1 h
    exact ih _ (hp.2 _ hexpected) hnext

/-- A program whose requests are carried out by programs, each of which follows a second protocol
and answers as the first one expects. -/
theorem Follows.interpret {ι' : Interface} {κ' : Type} {Q : Protocol ι' κ'} {R : κ → κ' → Prop}
    {reply : (request : ι.Request) → Program ι' (ι.Answer request)}
    (hreply : ∀ k k' request, P.allows k request → R k k' →
      (reply request).Follows Q (fun k' answer =>
        P.expects k request answer ∧ R (P.next k request answer) k') k')
    {p : Program ι α} (hp : p.Follows P ends k) {k' : κ'} (h : R k k') :
    (p.interpret emit reply).Follows Q (fun k' a => ∃ k, ends k a ∧ R k k') k' := by
  induction p generalizing k k' with
  | done a => exact ⟨k, hp, h⟩
  | note event rest ih => exact ih hp h
  | ask request rest ih =>
    refine follows_bind.2 ((hreply k k' request hp.1 h).imp fun k' answer hanswer => ?_)
    exact ih answer (hp.2 answer hanswer.1) hanswer.2

/-- A program that makes no requests follows every protocol and learns nothing. -/
theorem Follows.of_silent {ends : Unit → α → Prop} {p : Program ι α}
    (h : p.Follows .silent ends ()) (k : κ) : p.Follows P (fun k' a => k' = k ∧ ends () a) k := by
  induction p with
  | done a => exact ⟨rfl, h⟩
  | note event rest ih => exact ih h
  | ask request rest => exact h.1.elim

end Program

namespace Attempt

/-- The attempt follows a protocol, fails as told at most, and otherwise ends as told. -/
def Follows (P : Protocol ι κ) (fails : Failure → Prop) (ends : κ → α → Prop) (k : κ)
    (p : Attempt ι α) : Prop :=
  p.run.Follows P (fun k result => match result with
    | .ok a => ends k a
    | .error failure => fails failure) k

variable {P : Protocol ι κ} {fails : Failure → Prop} {ends ends' : κ → α → Prop} {k : κ}

@[simp] theorem follows_pure {a : α} :
    (pure a : Attempt ι α).Follows P fails ends k ↔ ends k a := Iff.rfl

@[simp] theorem follows_raise {e : Error} :
    (raise e : Attempt ι α).Follows P fails ends k ↔ fails (.raised e) := Iff.rfl

theorem follows_ofExcept {result : Except Failure α} :
    (ofExcept result : Attempt ι α).Follows P fails ends k ↔
      (∀ a, result = .ok a → ends k a) ∧ ∀ failure, result = .error failure → fails failure := by
  cases result <;> simp [Follows, ofExcept]

@[simp] theorem follows_click {sensor : Sensor} {ends : κ → Unit → Prop} :
    (click sensor : Attempt ι Unit).Follows P fails ends k ↔ ends k () := Iff.rfl

theorem follows_lift {p : Program ι α} :
    (lift p).Follows P fails ends k ↔ p.Follows P ends k :=
  Program.follows_bind

theorem follows_ofProgram {p : Program ι (Except Error α)} :
    (ofProgram p).Follows P fails ends k ↔
      p.Follows P (fun k result => match result with
        | .ok a => ends k a
        | .error e => fails (.raised e)) k := by
  refine Iff.trans Program.follows_bind ?_
  constructor <;> intro h <;> refine Program.Follows.imp h fun k result => ?_ <;> cases result <;>
    exact id

theorem Follows.imp {p : Attempt ι α} (h : p.Follows P fails ends k)
    (himp : ∀ k a, ends k a → ends' k a) : p.Follows P fails ends' k :=
  Program.Follows.imp h fun k result => match result with
    | .ok a => himp k a
    | .error _ => id

theorem follows_bind {p : Attempt ι β} {f : β → Attempt ι α} :
    (p >>= f).Follows P fails ends k ↔
      p.Follows P fails (fun k b => (f b).Follows P fails ends k) k := by
  refine Iff.trans Program.follows_bind ?_
  constructor <;> intro h <;> refine Program.Follows.imp h fun k result => ?_ <;> cases result <;>
    exact id

/-- What an attempt comes to, given what its first part comes to. -/
theorem follows_run_bind {p : Attempt ι β} {f : β → Attempt ι α}
    {ends : κ → Except Failure α → Prop} :
    (p >>= f).run.Follows P ends k ↔ p.run.Follows P (fun k result => match result with
      | .ok b => (f b).run.Follows P ends k
      | .error failure => ends k (.error failure)) k := by
  refine Iff.trans Program.follows_bind ?_
  constructor <;> intro h <;> refine Program.Follows.imp h fun k result => ?_ <;> cases result <;>
    exact id

/-- What an attempt comes to if its first part makes no requests. -/
theorem follows_run_bind_of_silent {p : Attempt ι β} {f : β → Attempt ι α}
    {ends : κ → Except Failure α → Prop} (hp : p.Follows .silent fails (fun _ _ => True) ())
    (hok : ∀ b, (f b).run.Follows P ends k) (herror : ∀ failure, ends k (.error failure)) :
    (p >>= f).run.Follows P ends k := by
  refine follows_run_bind.2 ((hp.of_silent k).imp ?_)
  rintro _ result ⟨rfl, -⟩
  cases result with
  | ok b => exact hok b
  | error failure => exact herror failure

/-- Attempts that follow a protocol from wherever they start do so one after another. -/
theorem follows_mapM_all {f : β → Attempt ι α} (ok : α → Prop) {xs : List β}
    (h : ∀ x ∈ xs, ∀ k, (f x).Follows P fails (fun _ a => ok a) k) (k : κ) :
    (xs.mapM f).Follows P fails (fun _ as => ∀ a ∈ as, ok a) k := by
  induction xs generalizing k with
  | nil => simp
  | cons x xs ih =>
    have hrest := ih fun y hy => h y (List.mem_cons_of_mem x hy)
    rw [List.mapM_cons, follows_bind]
    refine (h x List.mem_cons_self k).imp fun k a ha => ?_
    rw [follows_bind]
    exact (hrest k).imp fun _ as has => List.forall_mem_cons.2 ⟨ha, has⟩

theorem follows_mapM {f : β → Attempt ι α} {xs : List β}
    (h : ∀ x ∈ xs, ∀ k, (f x).Follows P fails (fun _ _ => True) k) (k : κ) :
    (xs.mapM f).Follows P fails (fun _ _ => True) k :=
  (follows_mapM_all (fun _ => True) h k).imp fun _ _ _ => trivial

theorem follows_filterMapM_all {f : β → Attempt ι (Option α)} (ok : α → Prop) {xs : List β}
    (h : ∀ x ∈ xs, ∀ k, (f x).Follows P fails (fun _ shown => ∀ a, shown = some a → ok a) k)
    (k : κ) : (xs.filterMapM f).Follows P fails (fun _ as => ∀ a ∈ as, ok a) k := by
  induction xs generalizing k with
  | nil => simp
  | cons x xs ih =>
    have hrest := ih fun y hy => h y (List.mem_cons_of_mem x hy)
    rw [List.filterMapM_cons, follows_bind]
    refine (h x List.mem_cons_self k).imp fun k shown hshown => ?_
    cases shown with
    | none => exact hrest k
    | some a =>
      rw [follows_bind]
      exact (hrest k).imp fun _ as has => List.forall_mem_cons.2 ⟨hshown a rfl, has⟩

theorem follows_filterMapM {f : β → Attempt ι (Option α)} {xs : List β}
    (h : ∀ x ∈ xs, ∀ k, (f x).Follows P fails (fun _ _ => True) k) (k : κ) :
    (xs.filterMapM f).Follows P fails (fun _ _ => True) k := by
  have hall : ∀ x ∈ xs, ∀ k,
      (f x).Follows P fails (fun _ shown => ∀ a, shown = some a → True) k :=
    fun x hx k => (h x hx k).imp fun _ _ _ _ _ => trivial
  exact (follows_filterMapM_all (fun _ => True) hall k).imp fun _ _ _ => trivial

end Attempt

/-! ## Coding rows -/

namespace Row

variable {P : Protocol ι κ} {k : κ}

@[simp] theorem follows_encode {row : Row} {ends : κ → Except Error Bytes → Prop} :
    (encode row : Program ι _).Follows P ends k ↔
      ends k (row.encode?.mapError .invalidArgument) := Iff.rfl

@[simp] theorem follows_reportCorruption {result : Except Corruption α}
    {ends : κ → Except Error α → Prop} :
    (reportCorruption result : Program ι _).Follows P ends k ↔
      ends k (result.mapError .corruptRow) := by
  cases result <;> exact Iff.rfl

@[simp] theorem follows_decode {buffer : Bytes} {ends : κ → Except Error Row → Prop} :
    (decode buffer : Program ι _).Follows P ends k ↔
      ends k ((decode? buffer).mapError .corruptRow) :=
  follows_reportCorruption

@[simp] theorem follows_select {wanted : List String} {buffer : Bytes}
    {ends : κ → Except Error Row → Prop} :
    (select wanted buffer : Program ι _).Follows P ends k ↔
      ends k ((select? wanted buffer).mapError .corruptRow) :=
  follows_reportCorruption

end Row

end StoreBench
