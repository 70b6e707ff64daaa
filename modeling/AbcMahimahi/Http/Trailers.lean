/-
Chunked bodies with trailers: after the last chunk the parser looks for an empty line, that is for two line ends in a
row. The first of them is that of the last trailer, so the end is found exactly where there is a trailer. Without one
the line end of the last chunk has been consumed, and the search goes on in what follows the body.
-/
import AbcMahimahi.Http.Framing

namespace AbcMahimahi.Http

open Bytes Relation

/-- The trailers, each with its line end, and the empty line. -/
def trailerSection (trailers : List Bytes) : Bytes := trailers.flatMap (· ++ crlf) ++ crlf

/-- A chunked body with trailers. -/
def trailedBody (chunks : List Chunk) (trailers : List Bytes) : Bytes :=
  chunks.flatMap Chunk.bytes ++ (ascii "0" ++ crlf ++ trailerSection trailers)

/-- A line of the trailers. -/
structure TrailerLine (t : Bytes) : Prop where
  some : t ≠ []
  line : find crlf t = none

namespace ChunkedBodyParser

/-! ## The trailers -/

/-- Of trailers, the empty line begins after the last one. -/
theorem find_trailers {trailers : List Bytes} (hne : trailers ≠ []) (hlines : ∀ t ∈ trailers, TrailerLine t) (more : Bytes) :
    ∃ loc, find (ending true) (trailerSection trailers ++ more) = some loc ∧
      loc + 4 = (trailerSection trailers).length := by
  induction trailers with
  | nil => exact absurd rfl hne
  | cons t ts ih =>
    have ht := hlines t (List.mem_cons_self ..)
    cases ts with
    | nil =>
      refine ⟨t.length, ?_, by simp [trailerSection, crlf]⟩
      have hfound := find_empty_line ht.line more
      simpa [trailerSection, ending] using hfound
    | cons t' ts =>
      have ht' := hlines t' (List.mem_cons_of_mem _ (List.mem_cons_self ..))
      obtain ⟨loc, hloc, hlen⟩ := ih (List.cons_ne_nil _ _) fun u hu => hlines u (List.mem_cons_of_mem _ hu)
      have hrest : crlf.isPrefixOf (trailerSection (t' :: ts) ++ more) ≠ true := by
        have hnot := not_prefix_line ht'.some ht'.line (trailerSection ts ++ more)
        simpa [trailerSection] using hnot
      have hfull := find_full_line hrest ht.line
      unfold ending at hloc ⊢
      rw [if_pos rfl] at hloc ⊢
      refine ⟨loc + (t.length + 2), ?_, ?_⟩
      · rw [hloc] at hfull
        simpa [trailerSection] using hfull
      · have hsection : (trailerSection (t :: t' :: ts)).length = t.length + 2 + (trailerSection (t' :: ts)).length := by
          simp only [trailerSection, List.flatMap_cons, List.length_append, length_crlf]
          omega
        omega

/-! ## The end of the body -/

section

variable {chunks : List Chunk} {more : Bytes} {pieces : List Bytes}

theorem body_leads {trailers : List Bytes} (hchunks : ∀ c ∈ chunks, c.WellFormed)
    (hstream : pieces.flatten = trailedBody chunks trailers ++ more) :
    Leads (start pieces.flatten) ⟨.trailer, 0, trailerSection trailers ++ more⟩ := by
  rw [hstream, trailedBody, List.append_assoc, List.append_assoc]
  exact chunks_lead _ hchunks

/-- Without a trailer the end is found later, if at all. -/
theorem no_trailer_not_endsAt (hchunks : ∀ c ∈ chunks, c.WellFormed)
    (hstream : pieces.flatten = trailedBody chunks [] ++ more) : ¬ EndsAt true (trailedBody chunks []).length pieces := by
  rintro ⟨before, piece, after, p₁, p₂, rfl, hlt, hle, hsteps, hread⟩
  have hstart := between_start true (before ++ piece :: after).flatten
  have hlead := body_leads hchunks hstream
  have hlength := congrArg List.length hstream
  rw [List.flatten_append, List.flatten_cons] at hstart hlead hlength
  have hbetween := hstart.steps hlead hsteps
  have hacked := hbetween.acked
  have htail : (trailerSection [] ++ more).length = 2 + more.length := by
    rw [List.length_append]
    rfl
  rcases hbetween.toward hlead with ⟨p', hread', -⟩ | ⟨loc, count, p', hread', -, hcount, -, -⟩
  · rw [hread] at hread'
    cases hread'
  · rw [hread] at hread'
    cases hread'
    rw [htail, show (ending true).length = 4 from rfl] at hcount
    simp only [List.length_append] at hacked hlength hcount
    omega

/-- The body is framed exactly when it has a trailer. -/
theorem trailers_framed_iff {trailers : List Bytes} (hchunks : ∀ c ∈ chunks, c.WellFormed)
    (htrailers : ∀ t ∈ trailers, TrailerLine t) (hstream : pieces.flatten = trailedBody chunks trailers ++ more) :
    EndsAt true (trailedBody chunks trailers).length pieces ↔ trailers ≠ [] := by
  constructor
  · rintro hends rfl
    exact no_trailer_not_endsAt hchunks hstream hends
  · intro hne
    obtain ⟨loc, hfind, hloc⟩ := find_trailers hne htrailers more
    refine endsAt_of_find hchunks (hstream.trans ?_) hfind ?_
    · rw [trailedBody, List.append_assoc, List.append_assoc]
    · rw [show (ending true).length = 4 from rfl, hloc, List.take_left]
      rfl

end

/-- One trailer. -/
theorem trailers_framed_small :
    EndsAt true (trailedBody [] [ascii "a: b"]).length [ascii "0\r\na: b\r", ascii "\n\r\nHT"] := by
  have hstream : [ascii "0\r\na: b\r", ascii "\n\r\nHT"].flatten = trailedBody [] [ascii "a: b"] ++ ascii "HT" := by decide
  refine (trailers_framed_iff (by simp) ?_ hstream).2 (List.cons_ne_nil _ _)
  intro t ht
  obtain rfl := List.mem_singleton.1 ht
  exact ⟨by decide, by decide⟩

/-- Without a trailer the header of the response after the body is taken for trailers. -/
theorem no_trailer_swallows :
    ¬ EndsAt true (trailedBody [] []).length [ascii "0\r\n\r\n", ascii "HTTP/1.1 200 OK\r\n\r\n"] ∧
    ∃ p, Run.steps read { trailersEnabled := true } [ascii "0\r\n\r\n", ascii "HTTP/1.1 200 OK\r\n\r\n"] =
      .ok ([none, some 19], p) := by
  have hstream : [ascii "0\r\n\r\n", ascii "HTTP/1.1 200 OK\r\n\r\n"].flatten =
      trailedBody [] [] ++ ascii "HTTP/1.1 200 OK\r\n\r\n" := by decide
  refine ⟨no_trailer_not_endsAt (by simp) hstream, ?_⟩
  have hrun : (·.1) <$> Run.steps read { trailersEnabled := true }
      [ascii "0\r\n\r\n", ascii "HTTP/1.1 200 OK\r\n\r\n"] = .ok [none, some 19] := by decide +kernel
  obtain ⟨⟨outs, p⟩, hsteps, rfl⟩ := Run.map_eq_ok hrun
  exact ⟨p, hsteps⟩

end ChunkedBodyParser

end AbcMahimahi.Http
