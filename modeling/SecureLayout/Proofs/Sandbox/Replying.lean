import Mathlib.Data.List.Induction
import SecureLayout.Proofs.Sandbox.Legibility

/-!
What a guest answers and what it has painted, after any texts. Main statement: a guest in the page says that it is
ready and then answers each markup once and each fault once, and nothing else; its document is the last markup with
the context that came with it and was updated since, and what was a fault might as well not have been sent.
-/

namespace SecureLayout.Sandbox

open Component (Painting Resolver)
open Json (Value)
open Wire (FrameMessage)

/-! ### Who listens to a window -/

namespace HostWindow

variable {w : HostWindow} {i : Nat}

/-- A listener is registered and reads. -/
def Hears (w : HostWindow) (i : Nat) : Prop :=
  ∃ b, w.inboxes[i]? = some b ∧ b.isRegistered = true ∧ b.isRead = true

theorem Hears.post (h : w.Hears i) (e : MessageEvent) :
    (w.post e).Hears i ∧ ((w.post e).drain i).1 = (w.drain i).1 ++ [e] := by
  obtain ⟨b, hb, hregistered, hread⟩ := h
  have htake : Inbox.take b e = { b with events := b.events ++ [e] } := by simp [Inbox.take, hregistered, hread]
  have hpost : (w.post e).inboxes[i]? = some { b with events := b.events ++ [e] } := by
    rw [HostWindow.post, List.getElem?_map, hb, Option.map_some, htake]
  refine ⟨⟨_, hpost, hregistered, hread⟩, ?_⟩
  rw [drain, hpost, drain, hb]
  rfl

end HostWindow

namespace Guest

/-- What happens to a guest in the page: a text is posted to it, or it runs. -/
inductive Turn where
  | deliver (raw : String)
  | run

def Turn.text? : Turn → Option String
  | deliver raw => some raw
  | run => none

def turn (s : HostWindow × Guest) : Turn → HostWindow × Guest
  | .deliver raw => (s.1, (s.2.post raw).2)
  | .run => runIn s.1 s.2

/-- A guest and its host window after some turns. -/
def live (g : Guest) (host : HostWindow) (turns : List Turn) : HostWindow × Guest :=
  turns.foldl turn (host, g)

/-! ### Texts -/

/-- A text brings markup. -/
def bringsMarkup (raw : String) : Bool :=
  match FrameMessage.decode raw with
  | .ok (.render _ _) => true
  | _ => false

/-- A text is no message, or is to set a path with an empty segment. -/
def isFaulty (raw : String) : Bool :=
  match FrameMessage.decode raw with
  | .error _ => true
  | .ok (.updateContext path _) => (Value.pathSegments path).contains ""
  | _ => false

/-- What a text is answered with. -/
def answer? (raw : String) : Option FrameMessage :=
  match FrameMessage.decode raw with
  | .error e => some (.error e.message)
  | .ok (.render _ _) => some .rendered
  | .ok (.updateContext path _) =>
    if (Value.pathSegments path).contains "" then
      some (.error (Failure.badRequest ("invalid context path: " ++ Text.quoted path)).message)
    else none
  | .ok _ => none

/-- A context once a text was read, if the text brings none. -/
def updated (context : Value) (raw : String) : Value :=
  match FrameMessage.decode raw with
  | .ok (.updateContext path value) => (context.setPath path value).toOption.getD context
  | _ => context

/-- What painting leaves behind once a text was read. -/
def worn (s : Resolver) (w : Painting) (raw : String) : Painting :=
  match FrameMessage.decode raw with
  | .ok (.render html _) => (Component.hydrate s html w).2
  | _ => w

/-- A guest once a text was read. -/
def heed (g : Guest) (raw : String) : Guest :=
  match FrameMessage.decode raw with
  | .ok (.render html context) => g.paint html context
  | .ok (.updateContext _ _) =>
    { g with document := { g.document with context := updated g.document.context raw } }
  | _ => g

variable {g : Guest} {raw html : String} {context : Value} {raws : List String} {host : HostWindow}

theorem setPath_of_contains {path : String} (h : (Value.pathSegments path).contains "" = true) (v new : Value) :
    v.setPath path new = .error (.badRequest ("invalid context path: " ++ Text.quoted path)) := by
  simp only [Value.setPath, h, if_true]

/-- Answers depend on the text alone. -/
theorem receive_eq (g : Guest) (raw : String) : g.receive raw = (answer? raw, g.heed raw) := by
  unfold receive answer? heed updated
  cases hd : FrameMessage.decode raw with
  | error e => rfl
  | ok x =>
    cases x with
    | updateContext path value =>
      dsimp only
      by_cases hpath : (Value.pathSegments path).contains "" = true
      · rw [setPath_of_contains hpath, if_pos hpath]
        rfl
      · simp only [Value.setPath, hpath, if_false, Bool.false_eq_true]
        rfl
    | _ => rfl

theorem receiveAll_eq (g : Guest) (raws : List String) :
    g.receiveAll raws = (raws.filterMap answer?, raws.foldl heed g) := by
  induction raws generalizing g with
  | nil => rfl
  | cons raw raws ih =>
    rw [receiveAll_cons, receive_eq, ih, List.filterMap_cons]
    cases answer? raw <;> rfl

theorem answer?_eq_some {x : FrameMessage} (h : answer? raw = some x) :
    x = .rendered ∧ bringsMarkup raw = true ∨ (∃ text, x = .error text) ∧ isFaulty raw = true := by
  unfold answer? at h
  unfold bringsMarkup isFaulty
  cases hd : FrameMessage.decode raw with
  | error e =>
    rw [hd] at h
    cases h
    exact .inr ⟨⟨_, rfl⟩, rfl⟩
  | ok y =>
    rw [hd] at h
    cases y with
    | render html context =>
      cases h
      exact .inl ⟨rfl, rfl⟩
    | updateContext path value =>
      dsimp only at h
      split at h
      · next hpath =>
        cases h
        exact .inr ⟨⟨_, rfl⟩, hpath⟩
      · cases h
    | _ => cases h

theorem heed_of_isFaulty (h : isFaulty raw = true) (g : Guest) : g.heed raw = g := by
  unfold isFaulty at h
  unfold heed updated
  cases hd : FrameMessage.decode raw with
  | error e => rfl
  | ok x =>
    rw [hd] at h
    cases x with
    | updateContext path value => simp only [setPath_of_contains h]; rfl
    | _ => cases h

theorem heed_of_render (h : FrameMessage.decode raw = .ok (.render html context)) (g : Guest) :
    g.heed raw = g.paint html context := by
  simp only [heed, h]

/-- Each markup and each fault is answered once. -/
theorem count_answer? (raw : String) :
    (answer? raw).toList.countP (·.kind == "RENDERED") = (if bringsMarkup raw then 1 else 0) ∧
      (answer? raw).toList.countP (·.kind == "ERROR") = (if isFaulty raw then 1 else 0) ∧
      (answer? raw).toList.length = (if bringsMarkup raw then 1 else 0) + (if isFaulty raw then 1 else 0) := by
  unfold answer? bringsMarkup isFaulty
  cases hd : FrameMessage.decode raw with
  | error e => exact ⟨rfl, rfl, rfl⟩
  | ok x =>
    cases x with
    | updateContext path value =>
      by_cases hpath : (Value.pathSegments path).contains "" = true
      · simp only [if_pos hpath]
        exact ⟨rfl, rfl, rfl⟩
      · simp only [if_neg hpath]
        exact ⟨rfl, rfl, rfl⟩
    | _ => exact ⟨rfl, rfl, rfl⟩

theorem count_answers (raws : List String) :
    (raws.filterMap answer?).countP (·.kind == "RENDERED") = raws.countP bringsMarkup ∧
      (raws.filterMap answer?).countP (·.kind == "ERROR") = raws.countP isFaulty ∧
      (raws.filterMap answer?).length = raws.countP bringsMarkup + raws.countP isFaulty := by
  induction raws with
  | nil => exact ⟨rfl, rfl, rfl⟩
  | cons raw raws ih =>
    obtain ⟨hrendered, herror, hlength⟩ := ih
    obtain ⟨hone, hfault, hall⟩ := count_answer? raw
    have hanswers : (raw :: raws).filterMap answer? = (answer? raw).toList ++ raws.filterMap answer? := by
      rw [List.filterMap_cons]
      cases answer? raw <;> rfl
    rw [hanswers, List.countP_append, List.countP_append, List.length_append, hrendered, herror, hlength, hone, hfault,
      hall, List.countP_cons, List.countP_cons]
    omega

/-! ### What texts leave -/

theorem heed_cases (g : Guest) (raw : String) :
    (∃ html context, FrameMessage.decode raw = .ok (.render html context) ∧ g.heed raw = g.paint html context) ∨
      bringsMarkup raw = false ∧
        g.heed raw = { g with document := { g.document with context := updated g.document.context raw } } := by
  unfold heed bringsMarkup updated
  cases hd : FrameMessage.decode raw with
  | error e => exact .inr ⟨rfl, rfl⟩
  | ok x =>
    cases x with
    | render html context => exact .inl ⟨html, context, rfl, rfl⟩
    | _ => exact .inr ⟨rfl, rfl⟩

theorem bringsMarkup_eq_true (h : FrameMessage.decode raw = .ok (.render html context)) : bringsMarkup raw = true := by
  simp only [bringsMarkup, h]

/-- A guest in the page with texts that wait. -/
def inPage (g : Guest) (waiting : List String) (isStarting : Bool) : Guest :=
  { g with inbox := some waiting, isStarting }

/-- What waits matters to nothing that is read. -/
theorem heed_inPage (g : Guest) (waiting : List String) (isStarting : Bool) (raw : String) :
    (g.inPage waiting isStarting).heed raw = (g.heed raw).inPage waiting isStarting := by
  unfold heed
  split <;> rfl

theorem foldl_heed_inPage (g : Guest) (waiting : List String) (isStarting : Bool) (raws : List String) :
    raws.foldl heed (g.inPage waiting isStarting) = (raws.foldl heed g).inPage waiting isStarting := by
  induction raws generalizing g with
  | nil => rfl
  | cons raw raws ih => rw [List.foldl_cons, heed_inPage, ih, List.foldl_cons]

theorem heed_fixed (g : Guest) (raw : String) :
    (g.heed raw).window = g.window ∧ (g.heed raw).resolver = g.resolver := by
  unfold heed
  split <;> exact ⟨rfl, rfl⟩

theorem window_foldl_heed (g : Guest) (raws : List String) : (raws.foldl heed g).window = g.window := by
  induction raws generalizing g with
  | nil => rfl
  | cons raw raws ih => exact (ih (g.heed raw)).trans (heed_fixed g raw).1

theorem resolver_foldl_heed (g : Guest) (raws : List String) : (raws.foldl heed g).resolver = g.resolver := by
  induction raws generalizing g with
  | nil => rfl
  | cons raw raws ih => exact (ih (g.heed raw)).trans (heed_fixed g raw).2

theorem renders_foldl_heed (g : Guest) (raws : List String) :
    (raws.foldl heed g).document.renders = g.document.renders + raws.countP bringsMarkup := by
  induction raws generalizing g with
  | nil => rfl
  | cons raw raws ih =>
    rw [List.foldl_cons, ih, List.countP_cons]
    rcases heed_cases g raw with ⟨html, context, hd, he⟩ | ⟨hno, he⟩
    · rw [he, bringsMarkup_eq_true hd]
      change g.document.renders + 1 + _ = _
      rw [if_pos rfl]
      omega
    · rw [he, hno]
      rfl

theorem painting_foldl_heed (g : Guest) (raws : List String) :
    (raws.foldl heed g).painting = raws.foldl (worn g.resolver) g.painting := by
  induction raws generalizing g with
  | nil => rfl
  | cons raw raws ih =>
    have hone : (g.heed raw).painting = worn g.resolver g.painting raw := by
      unfold heed worn
      cases FrameMessage.decode raw with
      | error e => rfl
      | ok x => cases x <;> rfl
    rw [List.foldl_cons, ih, hone, (heed_fixed g raw).2, List.foldl_cons]

/-- Without markup nothing but the context changes. -/
theorem document_foldl_heed (h : ∀ raw ∈ raws, bringsMarkup raw = false) (g : Guest) :
    (raws.foldl heed g).document = { g.document with context := raws.foldl updated g.document.context } := by
  induction raws generalizing g with
  | nil => rfl
  | cons raw raws ih =>
    obtain ⟨hraw, hraws⟩ := List.forall_mem_cons.1 h
    rcases heed_cases g raw with ⟨html, context, hd, -⟩ | ⟨-, he⟩
    · rw [bringsMarkup_eq_true hd] at hraw
      cases hraw
    · rw [List.foldl_cons, ih hraws, he]
      rfl

theorem foldl_heed_filter (g : Guest) (raws : List String) :
    (raws.filter (!isFaulty ·)).foldl heed g = raws.foldl heed g := by
  induction raws generalizing g with
  | nil => rfl
  | cons raw raws ih =>
    rw [List.filter_cons, List.foldl_cons]
    cases hf : isFaulty raw with
    | true =>
      rw [heed_of_isFaulty hf]
      exact ih g
    | false => exact ih (g.heed raw)

/-- The document is the last markup, hydrated as what came before has left things, with its context updated since. -/
theorem document_of_last {before after : List String} (hd : FrameMessage.decode raw = .ok (.render html context))
    (hafter : ∀ r ∈ after, bringsMarkup r = false) (g : Guest) :
    ((before ++ raw :: after).foldl heed g).document.html =
        (Component.hydrate g.resolver html (before.foldl (worn g.resolver) g.painting)).1 ∧
      ((before ++ raw :: after).foldl heed g).document.context = after.foldl updated context := by
  rw [List.foldl_append, List.foldl_cons, heed_of_render hd, document_foldl_heed hafter, ← painting_foldl_heed]
  unfold paint
  rw [resolver_foldl_heed]
  exact ⟨rfl, rfl⟩

/-- What is answered with an error changes nothing. -/
theorem receive_of_error {text : String} (h : (g.receive raw).1 = some (.error text)) : (g.receive raw).2 = g := by
  rw [receive_eq] at h ⊢
  rcases answer?_eq_some h with ⟨he, -⟩ | ⟨-, hfaulty⟩
  · cases he
  · exact heed_of_isFaulty hfaulty g

/-! ### Turns -/

/-- All texts that are posted. -/
def texts (turns : List Turn) : List String :=
  turns.filterMap Turn.text?

theorem texts_concat (turns : List Turn) (t : Turn) : texts (turns ++ [t]) = texts turns ++ t.text?.toList := by
  cases t <;> simp [texts, Turn.text?]

theorem live_concat (g : Guest) (host : HostWindow) (turns : List Turn) (t : Turn) :
    g.live host (turns ++ [t]) = turn (g.live host turns) t :=
  List.foldl_append

theorem run_inPage (g : Guest) (waiting : List String) (isStarting : Bool) :
    (g.inPage waiting isStarting).run =
      ((if isStarting then [.ready] else []) ++ waiting.filterMap answer?, (waiting.foldl heed g).inPage [] false) := by
  have hrun : (g.inPage waiting isStarting).run =
      ((if isStarting then [.ready] else []) ++ ((g.inPage [] false).receiveAll waiting).1,
        ((g.inPage [] false).receiveAll waiting).2) := rfl
  rw [hrun, receiveAll_eq, foldl_heed_inPage]

theorem say_inPage (g : Guest) (raws waiting : List String) (isStarting : Bool) :
    ((raws.foldl heed g).inPage waiting isStarting).say = g.say := by
  funext host x
  change host.post ⟨(raws.foldl heed g).window, x.encode⟩ = _
  rw [window_foldl_heed]
  rfl

/-- What a guest has said once it has read some texts, if it ever ran. -/
def saidBy (isStarting : Bool) (read : List String) : List FrameMessage :=
  if isStarting then [] else .ready :: read.filterMap answer?

/-- A guest that was attached has said that it is ready, has read a beginning of what was posted and answered it,
and the rest waits; or it has not run yet. -/
structure Underway (host : HostWindow) (g : Guest) (raws read waiting : List String) (isStarting : Bool)
    (s : HostWindow × Guest) : Prop where
  all : read ++ waiting = raws
  fresh : isStarting = true → read = []
  host : s.1 = (saidBy isStarting read).foldl g.say host
  guest : s.2 = (read.foldl heed g).inPage waiting isStarting

variable {read waiting : List String} {isStarting : Bool} {s : HostWindow × Guest}

theorem Underway.deliver (h : Underway host g raws read waiting isStarting s) (raw : String) :
    Underway host g (raws ++ [raw]) read (waiting ++ [raw]) isStarting (turn s (.deliver raw)) := by
  refine ⟨by rw [← List.append_assoc, h.all], h.fresh, h.host, ?_⟩
  rw [turn, h.guest]
  rfl

theorem Underway.run (h : Underway host g raws read waiting isStarting s) :
    Underway host g raws raws [] false (turn s .run) := by
  have hsaid : saidBy isStarting read ++ ((if isStarting then [.ready] else []) ++ waiting.filterMap answer?) =
      saidBy false raws := by
    rw [← h.all]
    unfold saidBy
    cases isStarting with
    | false => simp
    | true => simp [h.fresh rfl]
  have hrun : turn s .run =
      (((if isStarting then [FrameMessage.ready] else []) ++ waiting.filterMap answer?).foldl g.say s.1,
        (raws.foldl heed g).inPage [] false) := by
    rw [turn, h.guest, runIn, run_inPage, ← List.foldl_append, h.all]
    dsimp only
    rw [say_inPage]
  refine ⟨List.append_nil _, nofun, ?_, congrArg Prod.snd hrun⟩
  rw [hrun, h.host, ← List.foldl_append, hsaid]

theorem underway_live (host : HostWindow) (g : Guest) (turns : List Turn) :
    ∃ read waiting isStarting,
      Underway host g (texts turns) read waiting isStarting ((g.inPage [] true).live host turns) := by
  induction turns using List.reverseRecOn with
  | nil => exact ⟨[], [], true, rfl, fun _ => rfl, rfl, rfl⟩
  | append_singleton turns t ih =>
    obtain ⟨read, waiting, isStarting, h⟩ := ih
    rw [texts_concat, live_concat]
    cases t with
    | deliver raw => exact ⟨_, _, _, h.deliver raw⟩
    | run =>
      rw [Turn.text?, Option.toList_none, List.append_nil]
      exact ⟨_, _, _, h.run⟩

/-- Once it has run after the last text, a guest has read and answered all of them. -/
theorem live_run (host : HostWindow) (g : Guest) (turns : List Turn) :
    (g.inPage [] true).live host (turns ++ [.run]) =
      ((.ready :: (texts turns).filterMap answer?).foldl g.say host, ((texts turns).foldl heed g).inPage [] false) := by
  obtain ⟨read, waiting, isStarting, h⟩ := underway_live host g turns
  rw [live_concat]
  exact Prod.ext h.run.host h.run.guest

/-- Every listener hears all that is said. -/
theorem drain_foldl_say {i : Nat} (h : host.Hears i) (g : Guest) (said : List FrameMessage) :
    ((said.foldl g.say host).drain i).1 = (host.drain i).1 ++ said.map fun x => ⟨g.window, x.encode⟩ := by
  induction said generalizing host with
  | nil => exact (List.append_nil _).symm
  | cons x said ih =>
    obtain ⟨hhears, hdrain⟩ := h.post ⟨g.window, x.encode⟩
    rw [List.foldl_cons, List.map_cons, List.append_cons, ← hdrain]
    exact ih hhears

theorem count_ready (raws : List String) : (raws.filterMap answer?).countP (·.kind == "READY") = 0 := by
  refine List.countP_eq_zero.2 fun x hx => ?_
  obtain ⟨raw, -, hanswer⟩ := List.mem_filterMap.1 hx
  rcases answer?_eq_some hanswer with ⟨rfl, -⟩ | ⟨⟨text, rfl⟩, -⟩ <;> simp [FrameMessage.kind]

/-- A turn in which a faulty text is posted. -/
def Turn.isFaulty (t : Turn) : Bool :=
  t.text?.any Guest.isFaulty

theorem texts_filter (turns : List Turn) :
    texts (turns.filter (!·.isFaulty)) = (texts turns).filter (!Guest.isFaulty ·) := by
  induction turns with
  | nil => rfl
  | cons t turns ih =>
    cases t with
    | run => exact ih
    | deliver raw =>
      have hturn : (Turn.deliver raw).isFaulty = Guest.isFaulty raw := rfl
      cases hf : Guest.isFaulty raw <;> simp_all [texts, Turn.text?]

theorem attach_eq_ok {g' : Guest} (ha : g.attach host = (.ok (), g')) : g' = g.inPage [] true := by
  unfold attach at ha
  split at ha
  · cases ha
  · split at ha
    · cases ha
    · cases ha
      rfl

/-- Whatever texts are posted to a guest in the page, and however its runs fall between them: once it has run after
the last one, it has posted that it is ready, and then one answer for each text that brings markup or is faulty, in
order, and nothing else, and whoever listens has heard just that. Its document counts what was painted; it is the
last markup, hydrated, with the context that came with it and was updated by the later texts; and faulty texts, each
of which changes nothing, might as well not have been posted. -/
theorem answers_account_for_texts {host : HostWindow} {window : WindowRef} {resolver : Resolver} {painting : Painting}
    {g : Guest} (ha : ({ window, resolver, painting } : Guest).attach host = (.ok (), g)) (turns : List Turn) :
    let raws := texts turns
    let said := .ready :: raws.filterMap answer?
    let s := g.live host (turns ++ [.run])
    s.1 = said.foldl g.say host ∧
    (∀ i, host.Hears i → (s.1.drain i).1 = (host.drain i).1 ++ said.map fun x => ⟨window, x.encode⟩) ∧
    said.countP (·.kind == "READY") = 1 ∧
    said.countP (·.kind == "RENDERED") = raws.countP bringsMarkup ∧
    said.countP (·.kind == "ERROR") = raws.countP isFaulty ∧
    said.length = 1 + raws.countP bringsMarkup + raws.countP isFaulty ∧
    s.2.document.renders = said.countP (·.kind == "RENDERED") ∧
    (∀ before raw after html context, raws = before ++ raw :: after →
      FrameMessage.decode raw = .ok (.render html context) → (∀ r ∈ after, bringsMarkup r = false) →
      s.2.document.html = (Component.hydrate resolver html (before.foldl (worn resolver) painting)).1 ∧
        s.2.document.context = after.foldl updated context) ∧
    ((∀ r ∈ raws, bringsMarkup r = false) →
      s.2.document.html = "" ∧ s.2.document.context = raws.foldl updated .null) ∧
    (∀ (now : Guest) raw text, (now.receive raw).1 = some (.error text) → (now.receive raw).2 = now) ∧
    (g.live host (turns.filter (!·.isFaulty) ++ [.run])).2 = s.2 := by
  intro raws said s
  obtain rfl := attach_eq_ok ha
  have hs : s = (said.foldl (Guest.say { window, resolver, painting }) host,
      (raws.foldl heed { window, resolver, painting }).inPage [] false) := live_run host _ turns
  have hdocument : s.2.document = (raws.foldl heed { window, resolver, painting }).document := by rw [hs]; rfl
  obtain ⟨hrendered, herror, hlength⟩ := count_answers raws
  have hpainted : said.countP (·.kind == "RENDERED") = raws.countP bringsMarkup :=
    (List.countP_cons_of_neg (by decide)).trans hrendered
  refine ⟨congrArg Prod.fst hs, fun i hi => ?_, ?_, hpainted, ?_, ?_, ?_, ?_, ?_, fun now raw text => receive_of_error,
    ?_⟩
  · rw [hs]
    exact drain_foldl_say hi { window, resolver, painting } said
  · rw [List.countP_cons_of_pos (by decide), count_ready]
  · exact (List.countP_cons_of_neg (by decide)).trans herror
  · rw [List.length_cons, hlength]
    omega
  · rw [hdocument, renders_foldl_heed, hpainted]
    exact Nat.zero_add _
  · intro before raw after html context hraws hd hafter
    rw [hdocument, hraws]
    exact document_of_last hd hafter _
  · intro hnone
    rw [hdocument, document_foldl_heed hnone]
    exact ⟨rfl, rfl⟩
  · rw [hs, live_run, texts_filter, foldl_heed_filter]

/-- A page to paint, and an empty text once it is painted. -/
def pageThenNothing : List Turn :=
  [.deliver (FrameMessage.render "<p>" .null).encode, .run, .deliver ""]

theorem answers_account_for_texts_page :
    let g : Guest := ({ window := ⟨1⟩, resolver := {}, painting := ⟨{}, []⟩ } : Guest).inPage [] true
    ({ window := ⟨1⟩, resolver := {}, painting := ⟨{}, []⟩ } : Guest).attach {} = (.ok (), g) ∧
      (g.live {} (pageThenNothing ++ [.run])).2.document.renders = 1 ∧
      (g.live {} (pageThenNothing ++ [.run])).2.document.html =
        (Component.hydrate {} "<p>" ⟨{}, []⟩).1 := by
  intro g
  have ha : ({ window := ⟨1⟩, resolver := {}, painting := ⟨{}, []⟩ } : Guest).attach {} = (.ok (), g) := rfl
  have hvalue : ∀ v ∈ (FrameMessage.render "<p>" .null).value?, v = .null := fun v hv => by cases hv; rfl
  have hd : (FrameMessage.render "<p>" .null).Readable := by
    refine (FrameMessage.readable_iff (fun v hv => ?_) fun v hv => ?_).2 fun v hv => ?_ <;> rw [hvalue v hv]
    · exact .null
    · exact .null
    · decide
  have hnothing : bringsMarkup "" = false := by decide +kernel
  obtain ⟨-, -, -, hpainted, -, -, hrenders, hlast, -⟩ := answers_account_for_texts ha pageThenNothing
  obtain ⟨hhtml, -⟩ := hlast [] _ [""] "<p>" .null rfl hd (by simpa using hnothing)
  refine ⟨ha, ?_, hhtml⟩
  rw [hrenders, hpainted]
  simp [pageThenNothing, texts, Turn.text?, hnothing, bringsMarkup_eq_true hd]

end Guest

end SecureLayout.Sandbox
