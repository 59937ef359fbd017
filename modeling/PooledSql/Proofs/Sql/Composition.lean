import Mathlib
import PooledSql.Proofs.Sql.Results
import PooledSql.Sql.Template

/-!
# Composition of fragments

Chunks have a normal form, in which neighbouring texts are one text and no text is empty. Every
fragment that can be built is the normal form of the pieces it was built from, laid end to end, so
it does not matter in which groups the pieces were put together: fragments form a monoid, and a
fragment inside a template is its chunks in the place of the argument. Compiling follows the same
structure: an appended fragment is compiled behind the first, on top of its parameters.
-/

namespace PooledSql

/-! ## Normal forms -/

def Chunk.isText : Chunk → Bool
  | .text _ => true
  | _ => false

theorem Chunk.eq_text_or_isText_eq_false (c : Chunk) :
    (∃ s, c = .text s) ∨ c.isText = false := by
  cases c with
  | text s => exact .inl ⟨s, rfl⟩
  | _ => exact .inr rfl

namespace Fragment

/-- No text is empty, and no two texts are neighbours. -/
structure Normal (chunks : List Chunk) : Prop where
  text_ne : Chunk.text "" ∉ chunks
  apart : chunks.IsChain fun c d => ¬(c.isText ∧ d.isText)

/-- Put a chunk in front of chunks; text is fused with a text that stands there. -/
def fuse : Chunk → List Chunk → List Chunk
  | .text s, .text t :: rest => .text (s ++ t) :: rest
  | .text s, rest => if s = "" then rest else .text s :: rest
  | c, rest => c :: rest

/-- The normal form of chunks. -/
def normalize (chunks : List Chunk) : List Chunk := chunks.foldr fuse []

theorem fuse_of_not_isText {c : Chunk} (hc : c.isText = false) (chunks : List Chunk) :
    fuse c chunks = c :: chunks := by
  cases c with
  | text s => cases hc
  | _ => rfl

theorem fuse_text_of_not_isText {d : Chunk} (hd : d.isText = false) (s : String)
    (chunks : List Chunk) :
    fuse (.text s) (d :: chunks) = if s = "" then d :: chunks else .text s :: d :: chunks := by
  cases d with
  | text t => cases hd
  | _ => rfl

theorem fuse_text_nil (s : String) : fuse (.text s) [] = if s = "" then [] else [.text s] := rfl

theorem fuse_text_text (s t : String) (chunks : List Chunk) :
    fuse (.text s) (.text t :: chunks) = .text (s ++ t) :: chunks := rfl

/-- Text passes by whatever is not a text at the end. -/
theorem addText_cons {c : Chunk} {chunks : List Chunk} (h : chunks ≠ [] ∨ c.isText = false)
    (s : String) : addText s (c :: chunks) = c :: addText s chunks := by
  cases chunks with
  | cons d chunks => rw [addText]
  | nil =>
      have hsingle : addText s [c] = if s = "" then [c] else [c, .text s] := by
        cases c with
        | text t => exact absurd h (by simp [Chunk.isText])
        | _ => rfl
      rw [hsingle, addText]
      split_ifs <;> rfl

/-- Induction up to a text at the end, which is a case of its own. -/
theorem last_text_induction {motive : List Chunk → Prop} (nil : motive [])
    (text : ∀ t, motive [.text t])
    (cons : ∀ c chunks, chunks ≠ [] ∨ c.isText = false → motive chunks → motive (c :: chunks))
    (chunks : List Chunk) : motive chunks := by
  induction chunks with
  | nil => exact nil
  | cons c chunks ih =>
      obtain ⟨t, rfl⟩ | hc := c.eq_text_or_isText_eq_false
      · cases chunks with
        | nil => exact text t
        | cons d chunks => exact cons _ _ (.inl (List.cons_ne_nil d chunks)) ih
      · exact cons _ _ (.inr hc) ih

theorem addText_fuse (s : String) (c : Chunk) (chunks : List Chunk) :
    addText s (fuse c chunks) = fuse c (addText s chunks) := by
  -- the two ends meet only where a text is all there is
  obtain ⟨t, rfl⟩ | hc := c.eq_text_or_isText_eq_false
  · cases chunks with
    | nil => by_cases ht : t = "" <;> by_cases hs : s = "" <;> simp [fuse, addText, hs, ht]
    | cons d chunks =>
        obtain ⟨u, rfl⟩ | hd := d.eq_text_or_isText_eq_false
        · rw [fuse_text_text]
          cases chunks with
          | nil => simp only [addText, fuse_text_text, String.append_assoc]
          | cons e chunks =>
              have hne : e :: chunks ≠ [] := List.cons_ne_nil e chunks
              rw [addText_cons (.inl hne), addText_cons (.inl hne), fuse_text_text]
        · rw [fuse_text_of_not_isText hd, addText_cons (.inr hd), fuse_text_of_not_isText hd]
          by_cases ht : t = ""
          · rw [if_pos ht, if_pos ht, addText_cons (.inr hd)]
          · rw [if_neg ht, if_neg ht, addText_cons (.inl (List.cons_ne_nil d chunks)),
              addText_cons (.inr hd)]
  · rw [fuse_of_not_isText hc, fuse_of_not_isText hc, addText_cons (.inr hc)]

theorem fuse_append_singleton {d : Chunk} (hd : d.isText = false) (c : Chunk)
    (chunks : List Chunk) : fuse c (chunks ++ [d]) = fuse c chunks ++ [d] := by
  obtain ⟨t, rfl⟩ | hc := c.eq_text_or_isText_eq_false
  · cases chunks with
    | nil =>
        rw [List.nil_append, fuse_text_of_not_isText hd, fuse_text_nil]
        split_ifs <;> rfl
    | cons e chunks =>
        obtain ⟨u, rfl⟩ | he := e.eq_text_or_isText_eq_false
        · rfl
        · rw [List.cons_append, fuse_text_of_not_isText he, fuse_text_of_not_isText he]
          split_ifs <;> rfl
  · rw [fuse_of_not_isText hc, fuse_of_not_isText hc, List.cons_append]

theorem Normal.fuse {chunks : List Chunk} (h : Normal chunks) (c : Chunk) :
    Normal (fuse c chunks) := by
  obtain ⟨s, rfl⟩ | hc := c.eq_text_or_isText_eq_false
  · cases chunks with
    | nil =>
        rw [fuse_text_nil]
        split_ifs with hs
        · exact h
        · exact ⟨by simpa using Ne.symm hs, List.isChain_singleton _⟩
    | cons d chunks =>
        obtain ⟨t, rfl⟩ | hd := d.eq_text_or_isText_eq_false
        · obtain ⟨hhead, hrest⟩ := List.isChain_cons.1 h.apart
          have ht : t ≠ "" := by
            rintro rfl
            exact h.text_ne List.mem_cons_self
          refine ⟨?_, List.isChain_cons.2 ⟨hhead, hrest⟩⟩
          have hrest := fun hmem => h.text_ne (List.mem_cons_of_mem _ hmem)
          simpa [fuse_text_text, ht] using hrest
        · rw [fuse_text_of_not_isText hd]
          split_ifs with hs
          · exact h
          · refine ⟨?_, List.isChain_cons.2 ⟨?_, h.apart⟩⟩
            · simpa [Ne.symm hs] using h.text_ne
            · simp [hd]
  · rw [fuse_of_not_isText hc]
    refine ⟨?_, List.isChain_cons.2 ⟨by simp [hc], h.apart⟩⟩
    intro hmem
    obtain rfl | hmem := List.mem_cons.1 hmem
    · cases hc
    · exact h.text_ne hmem

theorem normal_normalize (chunks : List Chunk) : Normal (normalize chunks) := by
  induction chunks with
  | nil => exact ⟨List.not_mem_nil, .nil⟩
  | cons c chunks ih => exact ih.fuse c

theorem normalize_of_normal {chunks : List Chunk} (h : Normal chunks) :
    normalize chunks = chunks := by
  induction chunks with
  | nil => rfl
  | cons c chunks ih =>
      obtain ⟨hhead, hrest⟩ := List.isChain_cons.1 h.apart
      have hnormal : Normal chunks :=
        ⟨fun hmem => h.text_ne (List.mem_cons_of_mem c hmem), hrest⟩
      change Fragment.fuse c (normalize chunks) = c :: chunks
      rw [ih hnormal]
      obtain ⟨s, rfl⟩ | hc := c.eq_text_or_isText_eq_false
      · have hs : s ≠ "" := by
          rintro rfl
          exact h.text_ne List.mem_cons_self
        cases chunks with
        | nil => rw [fuse_text_nil, if_neg hs]
        | cons d chunks =>
            have hd : d.isText = false := by simpa [Chunk.isText] using hhead d rfl
            rw [fuse_text_of_not_isText hd, if_neg hs]
      · exact fuse_of_not_isText hc chunks

theorem normalize_append (ps qs : List Chunk) :
    normalize (ps ++ qs) = ps.foldr fuse (normalize qs) := List.foldr_append

/-- Pieces may be brought into normal form before others are put in front of them. -/
theorem normalize_append_normalize (ps qs : List Chunk) :
    normalize (ps ++ normalize qs) = normalize (ps ++ qs) := by
  rw [normalize_append, normalize_append, normalize_of_normal (normal_normalize qs)]

/-! ## Adding at the end -/

theorem append_nil (f : Fragment) : f ++ (⟨[]⟩ : Fragment) = f := rfl

theorem append_cons (f : Fragment) (c : Chunk) (chunks : List Chunk) :
    f ++ (⟨c :: chunks⟩ : Fragment) = f.pushChunk c ++ (⟨chunks⟩ : Fragment) := rfl

theorem pushChunk_fuse (p c : Chunk) (chunks : List Chunk) :
    pushChunk ⟨fuse p chunks⟩ c = ⟨fuse p (pushChunk ⟨chunks⟩ c).chunks⟩ := by
  obtain ⟨s, rfl⟩ | hc := c.eq_text_or_isText_eq_false
  · exact congrArg mk (addText_fuse s p chunks)
  · have hpush (f : Fragment) : f.pushChunk c = ⟨f.chunks ++ [c]⟩ := by
      cases c with
      | text s => cases hc
      | _ => rfl
    rw [hpush, hpush, fuse_append_singleton hc]

theorem pushChunk_normalize (ps : List Chunk) (c : Chunk) :
    pushChunk ⟨normalize ps⟩ c = ⟨normalize (ps ++ [c])⟩ := by
  induction ps with
  | nil => cases c <;> rfl
  | cons p ps ih =>
      change pushChunk ⟨fuse p (normalize ps)⟩ c = ⟨fuse p (normalize (ps ++ [c]))⟩
      rw [pushChunk_fuse, ih]

/-- A fragment appended to a normal form adds its chunks to the pieces. -/
theorem append_of_normalize (ps : List Chunk) (g : Fragment) :
    (⟨normalize ps⟩ : Fragment) ++ g = ⟨normalize (ps ++ g.chunks)⟩ := by
  obtain ⟨chunks⟩ := g
  induction chunks generalizing ps with
  | nil => rw [append_nil, List.append_nil]
  | cons c chunks ih => rw [append_cons, pushChunk_normalize, ih, List.append_cons ps c chunks]

theorem addText_empty (chunks : List Chunk) : addText "" chunks = chunks := by
  induction chunks using last_text_induction with
  | nil => rfl
  | text t => rw [addText, String.append_empty]
  | cons c chunks h ih => rw [addText_cons h, ih]

theorem addText_ne_nil {chunks : List Chunk} (h : chunks ≠ []) (s : String) :
    addText s chunks ≠ [] := by
  induction chunks using last_text_induction with
  | nil => exact absurd rfl h
  | text t => exact List.cons_ne_nil _ _
  | cons c chunks hc =>
      rw [addText_cons hc]
      exact List.cons_ne_nil _ _

theorem addText_addText (s t : String) (chunks : List Chunk) :
    addText t (addText s chunks) = addText (s ++ t) chunks := by
  induction chunks using last_text_induction with
  | nil => by_cases hs : s = "" <;> by_cases ht : t = "" <;> simp [addText, hs, ht]
  | text u => simp only [addText, String.append_assoc]
  | cons c chunks h ih =>
      rw [addText_cons h, addText_cons (h.imp_left (addText_ne_nil · s)), addText_cons h, ih]

theorem append_pushText (f g : Fragment) (s : String) :
    f ++ g.pushText s = (f ++ g).pushText s := by
  obtain ⟨chunks⟩ := g
  induction chunks using last_text_induction generalizing f with
  | nil =>
      change f ++ (⟨if s = "" then [] else [.text s]⟩ : Fragment) = ⟨addText s f.chunks⟩
      split_ifs with hs
      · rw [hs, addText_empty, append_nil]
      · rfl
  | text t => exact congrArg mk (addText_addText t s f.chunks).symm
  | cons c chunks h ih =>
      rw [append_cons, ← ih, ← append_cons]
      exact congrArg (f ++ mk ·) (addText_cons h s)

theorem append_pushChunk (f g : Fragment) (c : Chunk) :
    f ++ g.pushChunk c = (f ++ g).pushChunk c := by
  cases c with
  | text s => exact append_pushText f g s
  | _ => exact List.foldl_concat _ _ _ _

/-- Appending is associative, whatever the chunks. -/
theorem append_assoc (f g h : Fragment) : f ++ g ++ h = f ++ (g ++ h) := by
  obtain ⟨chunks⟩ := h
  induction chunks generalizing g with
  | nil => rw [append_nil, append_nil]
  | cons c chunks ih => rw [append_cons, append_cons, ← append_pushChunk, ih]

theorem append_literal (f : Fragment) (s : String) : f ++ literal s = f.pushText s := by
  change f ++ (pushText ⟨[]⟩ s) = f.pushText s
  rw [append_pushText, append_nil]

theorem joinOnto_eq_foldl (separator : String) (f first : Fragment) (rest : List Fragment) :
    joinOnto separator (f ++ first) rest =
      ((first :: rest).intersperse (literal separator)).foldl (· ++ ·) f := by
  induction rest generalizing f first with
  | nil => rfl
  | cons g rest ih =>
      change joinOnto separator ((f ++ first).pushText separator ++ g) rest = _
      rw [ih, List.intersperse_cons_cons, List.foldl_cons, List.foldl_cons, append_literal]

/-- Joining is appending one by one, with the separator as a fragment in between. -/
theorem join_eq_foldl (separator : String) (parts : List Fragment) :
    join separator parts = (parts.intersperse (literal separator)).foldl (· ++ ·) empty := by
  cases parts with
  | nil => rfl
  | cons first rest => exact joinOnto_eq_foldl separator empty first rest

/-! ## Templates -/

theorem pushArg_append (f g : Fragment) (arg : Arg) :
    (f ++ g).pushArg arg = do return f ++ (← g.pushArg arg) := by
  cases arg with
  | value v => exact congrArg Except.ok (append_pushChunk f g (.param v)).symm
  | chunk c =>
      cases c with
      | values batch =>
          rw [pushArg, pushArg]
          cases Batch.check batch with
          | error e => rfl
          | ok => exact congrArg Except.ok (append_pushChunk f g (.values batch)).symm
      | _ => exact congrArg Except.ok (append_pushChunk f g _).symm
  | fragment chunks => exact congrArg Except.ok (append_assoc f g ⟨chunks⟩)
  | undefined => rfl
  | unsupported kind => rfl

/-- What is pushed behind two fragments can be pushed behind the second first. -/
theorem pushPairs_append (f g : Fragment) (pairs : List (Arg × String)) :
    (f ++ g).pushPairs pairs = do return f ++ (← g.pushPairs pairs) := by
  induction pairs generalizing g with
  | nil => rfl
  | cons pair pairs ih =>
      obtain ⟨arg, s⟩ := pair
      rw [pushPairs, pushPairs, pushArg_append]
      cases g.pushArg arg with
      | error e => rfl
      | ok h =>
          change ((f ++ h).pushText s).pushPairs pairs = _
          rw [← append_pushText, ih]
          rfl

theorem pushPairs_append_list (f : Fragment) (pairs others : List (Arg × String)) :
    f.pushPairs (pairs ++ others) = f.pushPairs pairs >>= (pushPairs · others) := by
  induction pairs generalizing f with
  | nil => rfl
  | cons pair pairs ih =>
      obtain ⟨arg, s⟩ := pair
      rw [List.cons_append, pushPairs, pushPairs]
      cases f.pushArg arg with
      | error e => rfl
      | ok h => exact ih _

theorem interleave_cons {strings : List String} {args : List Arg}
    (h : strings.length = args.length) (first : String) :
    interleave (first :: strings) args = (literal first).pushPairs (args.zip strings) := by
  rw [interleave, if_neg (not_not_intro h)]
  rfl

/-- A fragment as an argument stands for its chunks between the literal strings around it. -/
theorem interleave_fragment {before after : List String} {args rest : List Arg}
    (hbefore : before.length = args.length) (hafter : after.length = rest.length)
    (first s : String) (g : Fragment) :
    interleave (first :: before ++ s :: after) (args ++ .fragment g.chunks :: rest) = do
      let f ← interleave (first :: before) args
      let h ← interleave (s :: after) rest
      return f ++ g ++ h := by
  have hlength : (before ++ s :: after).length = (args ++ .fragment g.chunks :: rest).length := by
    rw [List.length_append, List.length_append, List.length_cons, List.length_cons, hbefore,
      hafter]
  rw [List.cons_append, interleave_cons hlength, List.zip_append hbefore.symm,
    List.zip_cons_cons, pushPairs_append_list, interleave_cons hbefore, interleave_cons hafter]
  refine congrArg ((literal first).pushPairs (args.zip before) >>= ·) (funext fun f => ?_)
  change ((f ++ g).pushText s).pushPairs (rest.zip after) = _
  rw [← append_literal, pushPairs_append]

/-! ## Building -/

end Fragment

/-- The piece that an argument is, if it is not a fragment and not refused. -/
def Arg.piece? : Arg → Option Chunk
  | .value v => some (.param v)
  | .chunk c => some c
  | _ => none

namespace Fragment

/-- Literal strings and what stands between them, laid end to end. -/
def lay : List String → List (List Chunk) → List Chunk
  | [], _ => []
  | first :: strings, places =>
    .text first :: (places.zip strings).flatMap fun place => place.1 ++ [.text place.2]

/-- How fragments are built, each with the pieces it is made of: literal strings and arguments,
where a nested fragment counts with its own pieces. The pieces of the arguments of a template are
given with them. -/
inductive Built : Fragment → List Chunk → Prop where
  | empty : Built empty []
  | literal (s : String) : Built (literal s) [.text s]
  | append {f g : Fragment} {ps qs : List Chunk} (hf : Built f ps) (hg : Built g qs) :
      Built (f ++ g) (ps ++ qs)
  | join (separator : String) {parts : List (Fragment × List Chunk)}
      (hparts : ∀ part ∈ parts, Built part.1 part.2) :
      Built (join separator (parts.map (·.1)))
        ([.text separator].intercalate (parts.map (·.2)))
  | interleave {strings : List String} {args : List (Arg × List Chunk)} {f : Fragment}
      (hplain : ∀ arg ∈ args, ∀ c, arg.1.piece? = some c → arg.2 = [c])
      (hnested : ∀ arg ∈ args, ∀ chunks, arg.1 = .fragment chunks → Built ⟨chunks⟩ arg.2)
      (h : interleave strings (args.map (·.1)) = .ok f) :
      Built f (lay strings (args.map (·.2)))
  | format {template : String} {strings : List String} {args : List (Arg × List Chunk)}
      {f : Fragment} (hsplit : Template.split template = .ok strings)
      (hplain : ∀ arg ∈ args, ∀ c, arg.1.piece? = some c → arg.2 = [c])
      (hnested : ∀ arg ∈ args, ∀ chunks, arg.1 = .fragment chunks → Built ⟨chunks⟩ arg.2)
      (h : format template (args.map (·.1)) = .ok f) :
      Built f (lay strings (args.map (·.2)))

theorem append_normalize (ps qs : List Chunk) :
    (⟨normalize ps⟩ : Fragment) ++ (⟨normalize qs⟩ : Fragment) = ⟨normalize (ps ++ qs)⟩ := by
  rw [append_of_normalize, normalize_append_normalize]

theorem pushText_normalize (ps : List Chunk) (s : String) :
    pushText ⟨normalize ps⟩ s = ⟨normalize (ps ++ [.text s])⟩ := pushChunk_normalize ps (.text s)

theorem pushArg_normalize {ps qs : List Chunk} {arg : Arg} {f : Fragment}
    (hplain : ∀ c, arg.piece? = some c → qs = [c])
    (hnested : ∀ chunks, arg = .fragment chunks → (⟨chunks⟩ : Fragment) = ⟨normalize qs⟩)
    (h : pushArg ⟨normalize ps⟩ arg = .ok f) : f = ⟨normalize (ps ++ qs)⟩ := by
  cases arg with
  | value v =>
      cases h
      rw [hplain _ rfl, pushChunk_normalize]
  | chunk c =>
      rw [hplain c rfl, ← pushChunk_normalize]
      cases c with
      | values batch =>
          obtain ⟨_, -, h⟩ := Except.exists_of_bind_eq_ok h
          cases h
          rfl
      | _ =>
          cases h
          rfl
  | fragment chunks =>
      cases h
      exact (congrArg _ (hnested chunks rfl)).trans (append_normalize ps qs)
  | undefined | unsupported => cases h

theorem pushPairs_normalize {args : List (Arg × List Chunk)} {strings : List String}
    {ps : List Chunk} {f : Fragment}
    (hplain : ∀ arg ∈ args, ∀ c, arg.1.piece? = some c → arg.2 = [c])
    (hnested : ∀ arg ∈ args, ∀ chunks, arg.1 = .fragment chunks →
      (⟨chunks⟩ : Fragment) = ⟨normalize arg.2⟩)
    (h : pushPairs ⟨normalize ps⟩ ((args.map (·.1)).zip strings) = .ok f) :
    f = ⟨normalize (ps ++
      ((args.map (·.2)).zip strings).flatMap fun place => place.1 ++ [.text place.2])⟩ := by
  induction args generalizing strings ps with
  | nil =>
      cases h
      simp
  | cons arg args ih =>
      cases strings with
      | nil =>
          cases h
          simp
      | cons s strings =>
          obtain ⟨hplain, hplains⟩ := List.forall_mem_cons.1 hplain
          obtain ⟨hnested, hnesteds⟩ := List.forall_mem_cons.1 hnested
          rw [List.map_cons, List.zip_cons_cons, pushPairs] at h
          obtain ⟨g, hpush, h⟩ := Except.exists_of_bind_eq_ok h
          obtain rfl := pushArg_normalize hplain hnested hpush
          rw [pushText_normalize] at h
          rw [ih hplains hnesteds h]
          simp

theorem interleave_normalize {args : List (Arg × List Chunk)} {strings : List String}
    {f : Fragment} (hplain : ∀ arg ∈ args, ∀ c, arg.1.piece? = some c → arg.2 = [c])
    (hnested : ∀ arg ∈ args, ∀ chunks, arg.1 = .fragment chunks →
      (⟨chunks⟩ : Fragment) = ⟨normalize arg.2⟩)
    (h : interleave strings (args.map (·.1)) = .ok f) :
    f = ⟨normalize (lay strings (args.map (·.2)))⟩ := by
  cases strings with
  | nil => cases h
  | cons first strings =>
      rw [interleave] at h
      split_ifs at h with hlength
      change (pushText ⟨normalize []⟩ first).pushPairs _ = .ok f at h
      rw [pushText_normalize] at h
      exact pushPairs_normalize hplain hnested h

theorem joinOnto_normalize (separator : String) (ps : List Chunk) (first : Fragment × List Chunk)
    {rest : List (Fragment × List Chunk)}
    (h : ∀ part ∈ first :: rest, part.1 = ⟨normalize part.2⟩) :
    joinOnto separator (⟨normalize ps⟩ ++ first.1) (rest.map (·.1)) =
      ⟨normalize (ps ++ [.text separator].intercalate ((first :: rest).map (·.2)))⟩ := by
  induction rest generalizing ps first with
  | nil =>
      rw [h first List.mem_cons_self, append_normalize]
      simp only [List.map_cons, List.map_nil, List.intercalate_singleton]
      rfl
  | cons part rest ih =>
      obtain ⟨hfirst, hrest⟩ := List.forall_mem_cons.1 h
      change joinOnto separator ((⟨normalize ps⟩ ++ first.1).pushText separator ++ part.1)
        (rest.map (·.1)) = _
      rw [hfirst, append_normalize, pushText_normalize, ih _ _ hrest]
      simp

/-- A fragment is the normal form of its pieces, however it was built from them. -/
theorem Built.eq_normalize {f : Fragment} {ps : List Chunk} (h : Built f ps) :
    f = ⟨normalize ps⟩ := by
  induction h with
  | empty => rfl
  | literal s => exact pushText_normalize [] s
  | append hf hg ihf ihg => rw [ihf, ihg, append_normalize]
  | join separator hparts ih =>
      rename_i parts
      cases parts with
      | nil => rfl
      | cons first rest => exact joinOnto_normalize separator [] first ih
  | interleave hplain hnested h ih => exact interleave_normalize hplain ih h
  | format hsplit hplain hnested h ih =>
      rw [Fragment.format, hsplit] at h
      exact interleave_normalize hplain ih h

/-! ## Compiling -/

section

variable {dialect : Dialect}

theorem compileChunks_append (params : List Value) (chunks others : List Chunk) :
    compileChunks dialect params (chunks ++ others) = do
      let (text, params) ← compileChunks dialect params chunks
      let (more, params) ← compileChunks dialect params others
      return (text ++ more, params) := by
  induction chunks generalizing params with
  | nil =>
      rw [List.nil_append, compileChunks]
      change _ = compileChunks dialect params others >>= fun (more, params) =>
        pure ("" ++ more, params)
      cases compileChunks dialect params others with
      | error e => rfl
      | ok compiled => simp [bind, Except.bind, pure, Except.pure]
  | cons c chunks ih =>
      rw [List.cons_append, compileChunks, compileChunks]
      cases c.compile dialect params with
      | error e => rfl
      | ok compiled =>
          simp only [bind, Except.bind]
          rw [ih]
          cases compileChunks dialect compiled.2 chunks with
          | error e => rfl
          | ok texts =>
              simp only [bind, Except.bind, pure, Except.pure]
              cases compileChunks dialect texts.2 others with
              | error e => rfl
              | ok more => simp only [String.append_assoc]

/-- Fusing does not show in the compiled text. -/
theorem compileChunks_addText (params : List Value) (s : String) (chunks : List Chunk) :
    compileChunks dialect params (addText s chunks) =
      compileChunks dialect params (chunks ++ [.text s]) := by
  induction chunks using last_text_induction generalizing params with
  | nil =>
      by_cases hs : s = ""
      · subst hs
        rfl
      · rw [addText, if_neg hs, List.nil_append]
  | text t =>
      simp [addText, compileChunks, Chunk.compile, bind, Except.bind, pure, Except.pure]
  | cons c chunks h ih =>
      rw [addText_cons h, List.cons_append, compileChunks, compileChunks]
      simp only [ih]

theorem compileChunks_pushChunk (params : List Value) (f : Fragment) (c : Chunk) :
    compileChunks dialect params (f.pushChunk c).chunks =
      compileChunks dialect params (f.chunks ++ [c]) := by
  cases c with
  | text s => exact compileChunks_addText params s f.chunks
  | _ => rfl

theorem compileChunks_chunks_append (params : List Value) (f g : Fragment) :
    compileChunks dialect params (f ++ g).chunks =
      compileChunks dialect params (f.chunks ++ g.chunks) := by
  obtain ⟨chunks⟩ := g
  induction chunks generalizing f with
  | nil => rw [append_nil, List.append_nil]
  | cons c chunks ih =>
      rw [append_cons, ih, compileChunks_append, compileChunks_pushChunk, ← compileChunks_append,
        List.append_cons f.chunks c chunks]

/-- An appended fragment is compiled behind the first, on top of its parameters. -/
theorem compile_append (f g : Fragment) :
    (f ++ g).compile dialect = do
      let ⟨query, params⟩ ← f.compile dialect
      let (text, params) ← compileChunks dialect params g.chunks
      return ⟨query ++ text, params⟩ := by
  rw [compile, compileChunks_chunks_append, compileChunks_append, compile]
  cases compileChunks dialect [] f.chunks with
  | error e => rfl
  | ok compiled =>
      simp only [bind, Except.bind, pure, Except.pure]
      cases compileChunks dialect compiled.2 g.chunks with
      | error e => rfl
      | ok more => rfl

end

/-- Fragments are the normal forms of their pieces and form a monoid; a fragment in a template is
spliced in, joining is appending with the separator in between, and appended fragments are
compiled one after the other, on top of the parameters of those before. -/
theorem fragments_compose :
    (∀ f ps, Built f ps → Normal f.chunks ∧ f.chunks = normalize ps) ∧
    (∀ f g h : Fragment, f ++ g ++ h = f ++ (g ++ h)) ∧
    (∀ f ps, Built f ps → empty ++ f = f ∧ f ++ empty = f) ∧
    (∀ before after args rest first s g, before.length = args.length →
      after.length = rest.length →
      interleave (first :: before ++ s :: after) (args ++ .fragment g.chunks :: rest) = do
        let f ← interleave (first :: before) args
        let h ← interleave (s :: after) rest
        return f ++ g ++ h) ∧
    (∀ separator parts,
      join separator parts = (parts.intersperse (literal separator)).foldl (· ++ ·) empty) ∧
    ∀ (dialect : Dialect) (f g : Fragment), (f ++ g).compile dialect = do
      let ⟨query, params⟩ ← f.compile dialect
      let (text, params) ← compileChunks dialect params g.chunks
      return ⟨query ++ text, params⟩ := by
  refine ⟨?_, append_assoc, ?_, ?_, join_eq_foldl, fun _ => compile_append⟩
  · intro f ps h
    rw [h.eq_normalize]
    exact ⟨normal_normalize ps, rfl⟩
  · intro f ps h
    refine ⟨?_, append_nil f⟩
    rw [h.eq_normalize]
    exact append_normalize [] ps
  · intro before after args rest first s g hbefore hafter
    exact interleave_fragment hbefore hafter first s g

/-- A list, one item of which is empty. -/
def listing : Fragment := join ", " [literal "a", literal "", literal "b"]

theorem fragments_compose_listing :
    format "in (\x7b\x7d)" [.fragment listing.chunks] = .ok ⟨[.text "in (a, , b)"]⟩ ∧
    Normal [.text "in (a, , b)"] ∧
    [.text "in (a, , b)"] = normalize
      [.text "in (", .text "a", .text ", ", .text "", .text ", ", .text "b", .text ")"] := by
  have hsplit : Template.split "in (\x7b\x7d)" = .ok ["in (", ")"] := by cbv
  have hformat :
      format "in (\x7b\x7d)" [.fragment listing.chunks] = .ok ⟨[.text "in (a, , b)"]⟩ := by
    cbv
  have hparts : ∀ part ∈ ["a", "", "b"].map fun s => (literal s, [Chunk.text s]),
      Built part.1 part.2 := by simp [Built.literal]
  have hargs : ∀ arg ∈ [(Arg.fragment listing.chunks,
      [Chunk.text "a", .text ", ", .text "", .text ", ", .text "b"])],
      (∀ c, arg.1.piece? = some c → arg.2 = [c]) ∧
        ∀ chunks, arg.1 = .fragment chunks → Built ⟨chunks⟩ arg.2 := by
    rw [List.forall_mem_singleton]
    refine ⟨by simp [Arg.piece?], ?_⟩
    rintro _ ⟨⟩
    exact Built.join ", " hparts
  have hbuilt := Built.format hsplit (fun arg h => (hargs arg h).1) (fun arg h => (hargs arg h).2)
    hformat
  obtain ⟨hnormal, hchunks⟩ := fragments_compose.1 _ _ hbuilt
  exact ⟨hformat, hnormal, hchunks⟩

end Fragment

end PooledSql
