/-
Responses whose body the rules of the source do not find. The parser throws at the end of the head, finds an end before
the end, or goes on behind it. Nothing that comes later puts that right: a complete response stays as it is, and a body
only grows.
-/
import AbcMahimahi.Http.Pairing

namespace AbcMahimahi.Http

open Bytes

open Answer (inside)

/-! ## One response -/

namespace Answer

variable {a : Answer} {request : HTTPRequest} {eof : Bool} {done : List HTTPResponse} {requests : List HTTPRequest}

end Answer

/-! ## What is wrong stays wrong -/

/-- The message after the first `k` is not the answer to the exchange, or its body is already too long for that. -/
inductive Astray (k : Nat) (e : Exchange) (q : HTTPResponseParser) : Prop
  | behind {m : HTTPResponse} (hm : q.completeMessages[k]? = some m) (hnot : ¬ Answers e m)
  | within (hk : q.completeMessages.length = k)
      (hstate : q.messageInProgress.state = .bodyPending ∨ q.messageInProgress.state = .complete)
      (hlong : e.final.body.length < q.messageInProgress.body.length)

theorem HTTPResponse.readInBody_grows {m m' : HTTPResponse} {str : Bytes} {n : Nat} (h : m.readInBody str = .ok (n, m')) :
    (m'.state = .bodyPending ∨ m'.state = .complete) ∧ m.body.length ≤ m'.body.length := by
  obtain ⟨_, hcheck, h⟩ := Run.bind_ok h
  have hstate : m.state = .bodyPending := by simpa using check_ok hcheck
  obtain ⟨known, -, h⟩ := Run.bind_ok h
  split at h
  · obtain ⟨expected, -, h⟩ := Run.bind_ok h
    obtain ⟨_, -, h⟩ := Run.bind_ok h
    cases h
    dsimp only
    refine ⟨?_, by rw [List.length_append]; exact Nat.le_add_right _ _⟩
    split
    · exact Or.inr rfl
    · exact Or.inl hstate
  · obtain ⟨_, -, h⟩ := Run.bind_ok h
    split at h
    · cases h
    · obtain ⟨⟨amount, p⟩, -, h⟩ := Run.bind_ok h
      cases amount with
      | none =>
        cases h
        exact ⟨Or.inl hstate, by dsimp only; rw [List.length_append]; exact Nat.le_add_right _ _⟩
      | some k =>
        cases h
        exact ⟨Or.inr rfl, by dsimp only; rw [List.length_append]; exact Nat.le_add_right _ _⟩

namespace Astray

variable {k : Nat} {e : Exchange} {q q' : HTTPResponseParser}

theorem of_complete (h : q.completeMessages <+: q'.completeMessages) {m : HTTPResponse} (hm : q.completeMessages[k]? = some m)
    (hnot : ¬ Answers e m) : Astray k e q' := by
  obtain ⟨more, hmore⟩ := h
  refine .behind ?_ hnot
  rw [← hmore, List.getElem?_append_left (List.getElem?_eq_some_iff.1 hm).1, hm]

theorem step {go : Bool} (h : Astray k e q) (hstep : q.parsingStep = .ok (go, q')) : Astray k e q' := by
  cases h with
  | behind hm hnot => exact of_complete (HTTPMessageSequence.parsingStep_follows hstep).1.complete hm hnot
  | within hk hstate hlong =>
    rcases hstate with hstate | hstate
    · rw [HTTPMessageSequence.parsingStep_body hstate] at hstep
      obtain ⟨n, m, hread, -, -, rfl, rfl⟩ := HTTPMessageSequence.stepBody_ok hstep
      obtain ⟨hstate', hgrows⟩ := HTTPResponse.readInBody_grows hread
      exact .within hk hstate' (lt_of_lt_of_le hlong hgrows)
    · rw [HTTPMessageSequence.parsingStep_complete hstate] at hstep
      cases hstep
      refine .behind (m := q.messageInProgress) ?_ fun hanswers => ?_
      · unfold HTTPMessageSequence.stepComplete
        rw [← hk]
        exact List.getElem?_concat_length
      · rw [hanswers.body] at hlong
        exact absurd hlong (lt_irrefl _)

theorem parse {buf : Bytes} (h : Astray k e q) (hparse : q.parse buf = .ok q') : Astray k e q' := by
  obtain ⟨m, hnotice, hdrain⟩ := Run.bind_ok hparse
  refine HTTPMessageSequence.drain_keeps (fun _ _ _ => step) ?_ hdrain
  cases h with
  | behind hm hnot => exact .behind hm hnot
  | within hk hstate hlong =>
    have hm : (m.state = .bodyPending ∨ m.state = .complete) ∧ m.body = q.messageInProgress.body := by
      unfold HTTPMessageSequence.notice at hnotice
      split at hnotice
      · unfold HTTPMessage.eof at hnotice
        split at hnotice
        · rename_i hfirst
          rw [hfirst] at hstate
          simp at hstate
        · cases hnotice
        · rename_i hbody
          obtain ⟨ends, -, hnotice⟩ := Run.bind_ok hnotice
          cases hnotice
          split
          · exact ⟨Or.inr rfl, rfl⟩
          · exact ⟨Or.inl hbody, rfl⟩
        · cases hnotice
      · cases hnotice
        exact ⟨hstate, rfl⟩
    exact .within hk hm.1 (by dsimp only; rw [hm.2]; exact hlong)

theorem feed : ∀ {pieces : List Bytes} {q q' : HTTPResponseParser}, Astray k e q →
    Pieces.feed HTTPMessageSequence.parse q pieces = .ok q' → Astray k e q' :=
  Pieces.feed_keep fun _ _ _ h hparse => h.parse hparse

theorem finish {closed : Bool} (h : Astray k e q) (hfinish : finish closed q = .ok q') : Astray k e q' := by
  cases closed with
  | false =>
    cases hfinish
    exact h
  | true => exact h.parse hfinish

/-- An exchange in that place is not answered. -/
theorem not_answered {front back : List Exchange} (h : Astray k e q) (hk : front.length = k) :
    ¬ List.Forall₂ Answers (front ++ e :: back) q.completeMessages := by
  intro hanswers
  have hlength := hanswers.length_eq
  rw [List.length_append, List.length_cons, hk] at hlength
  cases h with
  | @behind m hm hnot =>
    obtain ⟨hlt, hget⟩ := List.getElem?_eq_some_iff.1 hm
    have hcorresponding := hanswers.get (by rw [List.length_append, List.length_cons]; omega) hlt
    simp only [List.get_eq_getElem, hget] at hcorresponding
    simp only [← hk, List.getElem_append_right le_rfl, Nat.sub_self, List.getElem_cons_zero] at hcorresponding
    exact hnot hcorresponding
  | within hlen _ _ => omega

end Astray

/-! ## Streams -/

theorem finish_follows {closed : Bool} {q q' : HTTPResponseParser} (h : finish closed q = .ok q') :
    HTTPMessageSequence.Follows q q' := by
  cases closed with
  | false => cases h; exact .refl q
  | true => exact (HTTPMessageSequence.parse_follows h).1

section

variable {closed : Bool} {exchanges : List Exchange} {events : List ProxyEvent}

/-- There are no more responses than requests, so the final ones are all. -/
theorem finals_all {q : HTTPResponseParser} (hcount : q.completeMessages.length ≤ exchanges.length)
    (h : List.Forall₂ Answers exchanges (finals q)) : List.Forall₂ Answers exchanges q.completeMessages := by
  have hlength := h.length_eq
  have hfilter : finals q = q.completeMessages :=
    (List.filter_sublist (p := fun m => !HTTPResponse.isInterim m)).eq_of_length_le (by unfold finals at hlength; omega)
  rwa [hfilter] at h

/-- Paired responses, seen from the bytes of a front of the stream. -/
theorem Paired.after (h : ProxyEvent.Carry exchanges events) (hpaired : Paired exchanges events closed) {x y : Bytes}
    {q : HTTPResponseParser} (hstream : exchanges.flatMap Exchange.bytes = x ++ y)
    (hx : Pieces.bytewise HTTPMessageSequence.parse (.start (exchanges.map (·.request))) x = .ok q) :
    ∃ rest q₁ q₂, rest.flatten = y ∧ (∀ p ∈ rest, p ≠ []) ∧ Pieces.feed HTTPMessageSequence.parse q rest = .ok q₁ ∧
      finish closed q₁ = .ok q₂ ∧ List.Forall₂ Answers exchanges q₂.completeMessages := by
  obtain ⟨q'', hrun, hanswers⟩ := hpaired
  obtain ⟨q', hq', hfinish⟩ := Run.bind_ok hrun
  have hfeed := ProxyEvent.feed_of_run hq'
  rw [h.requests] at hfeed
  -- the parser completes no more responses than it has been given requests
  have hcount : q''.completeMessages.length ≤ exchanges.length := by
    have hfollows := ((HTTPMessageSequence.feed_follows hfeed).1.trans (finish_follows hfinish)).count
    rw [HTTPMessageSequence.taken_pending (q := (.start [] : HTTPResponseParser).announce _) rfl] at hfollows
    have htaken : q''.completeMessages.length ≤ q''.taken := Nat.le_add_right _ _
    simp only [HTTPMessageSequence.announce, HTTPMessageSequence.start, List.nil_append, List.length_nil, List.length_map] at hfollows
    omega
  have hall := finals_all hcount hanswers
  obtain ⟨rest, hrne, hrest, hagree⟩ := HTTPMessageSequence.parse_incremental.feed_after responses_failAtOnce h.nonempty
    (h.stream.trans hstream) (HTTPMessageSequence.quiet_start _) (HTTPMessageSequence.alike_equiv.refl _) hx
  have hfeed' : Pieces.feed HTTPMessageSequence.parse (.start (exchanges.map (·.request)) : HTTPResponseParser)
    (ProxyEvent.pieces events) = .ok q' := hfeed
  rw [hfeed'] at hagree
  generalize hr : Pieces.feed HTTPMessageSequence.parse q rest = r at hagree
  cases hagree with
  | @ok _ q₁ halike =>
    have hagree' := finish_alike halike closed
    rw [hfinish] at hagree'
    generalize hr' : finish closed q₁ = r' at hagree'
    cases hagree' with
    | @ok _ q₂ halike' => exact ⟨rest, q₁, q₂, hrest, hrne, hr, hr', answers_alike halike' hall⟩

/-- A front of the stream after which the parser is astray. -/
theorem Paired.not_astray (h : ProxyEvent.Carry exchanges events) (hpaired : Paired exchanges events closed) {front back : List Exchange}
    {e : Exchange} (hexchanges : exchanges = front ++ e :: back) {x y : Bytes} {q : HTTPResponseParser}
    (hstream : exchanges.flatMap Exchange.bytes = x ++ y)
    (hx : Pieces.bytewise HTTPMessageSequence.parse (.start (exchanges.map (·.request))) x = .ok q) :
    ¬ Astray front.length e q := by
  intro hastray
  obtain ⟨rest, q₁, q₂, -, -, hfeed, hfinish, hanswers⟩ := hpaired.after h hstream hx
  subst hexchanges
  exact ((hastray.feed hfeed).finish hfinish).not_answered rfl hanswers

/-- Up to an exchange in front of which all is well. -/
theorem reaches {front back : List Exchange} {e : Exchange} (hexchanges : exchanges = front ++ e :: back)
    (hfront : ∀ e' ∈ front, e'.Complete false ∧ e'.Handled false) : ∃ ms : List HTTPResponse, ms.length = front.length ∧
    ∀ x q, Pieces.bytewise HTTPMessageSequence.parse (inside ms .fresh (e.request :: back.map (·.request))) x = .ok q →
      Pieces.bytewise HTTPMessageSequence.parse (.start (exchanges.map (·.request))) (front.flatMap Exchange.bytes ++ x) = .ok q := by
  obtain ⟨ms, hbytes, hms⟩ := bytewise_answers [] (e.request :: back.map (·.request)) fun e' he' =>
    ⟨⟨_, (hfront e' he').1⟩, (hfront e' he').2⟩
  refine ⟨ms, hms.length_eq.symm, fun x q hx => ?_⟩
  rw [Pieces.bytewise_append, hexchanges, List.map_append, List.map_cons]
  exact (congrArg (· >>= _) hbytes).trans hx

/-- The first exchange that is not all well has no interim response: that would have taken the request. -/
theorem Paired.single (h : ProxyEvent.Carry exchanges events) (hpaired : Paired exchanges events closed) {front back : List Exchange}
    {e : Exchange} (hexchanges : exchanges = front ++ e :: back) (hfront : ∀ e' ∈ front, e'.Complete false ∧ e'.Handled false)
    {eof : Bool} (he : e.Complete eof) : e.interim = [] := by
  obtain ⟨ms, hlength, hafter⟩ := reaches hexchanges hfront
  -- an interim response has no body, so its end is found; its successor gets the next request
  cases hinterim : e.interim with
  | nil => rfl
  | cons a as =>
    obtain ⟨hwas, hato⟩ := he.interim a (by rw [hinterim]; exact List.mem_cons_self ..)
    have hfound : Found e.request a.code a.headers false a.body := by
      have hbody := hato.body
      generalize a.body = body at hbody
      cases hbody with
      | none h => exact .none h
      | chunked h => exact absurd (Or.inl hwas) h
      | length h => exact absurd (Or.inl hwas) h
      | byteranges h => exact absurd (Or.inl hwas) h
    have hstream : exchanges.flatMap Exchange.bytes = front.flatMap Exchange.bytes ++ a.bytes ++
        (as.flatMap Answer.bytes ++ e.final.bytes ++ back.flatMap Exchange.bytes) := by
      rw [hexchanges, List.flatMap_append, List.flatMap_cons]
      unfold Exchange.bytes
      rw [hinterim, List.flatMap_cons]
      simp only [List.append_assoc]
    obtain ⟨m, hm, hx | ⟨hfalse, -⟩⟩ := hato.toWritten.found he.request hfound ms (back.map (·.request))
    · refine absurd (.behind (m := m) ?_ fun hanswers => ?_) (hpaired.not_astray h hexchanges hstream (hafter _ _ hx))
      · rw [← hlength]
        exact List.getElem?_concat_length
      · exact he.final ((isInterim_iff he.written hanswers).1 ((isInterim_iff hato.toWritten hm).2 hwas))
    · cases hfalse

end

/-! ## Three exchanges, and an interim response -/

/-- A response of a given body, whose headers say that it has two bytes. -/
def twoBytes (body : Bytes) : Answer :=
  ⟨ascii "HTTP/1.1 200 OK", ascii "200", [ascii "Content-Length: 2"], [⟨ascii "Content-Length", ascii "2"⟩], body⟩

theorem twoBytes_written (body : Bytes) : (twoBytes body).Written :=
  ⟨show find crlf (ascii "HTTP/1.1 200 OK") = none by decide, ⟨ascii "HTTP/1.1", ascii "OK", [], rfl⟩,
    show ascii "200" ≠ [] by decide, .cons ⟨by decide, by decide, rfl⟩ .nil⟩

theorem get_has_body {code : Bytes} (h : code = ascii "200") : ¬ NoBody getRequest code := by
  subst h
  rintro (h | h | h | h)
  · exact absurd h (by decide)
  · exact absurd h (by decide)
  · exact absurd h (by decide)
  · exact absurd h (by decide)

end AbcMahimahi.Http
