import PostfixCalc.Text.Cluster.Basic

/-!
# Lines as they were typed

A line of input is what was typed before the line break, with every backspace and the cluster that
it takes back left out.  The length of a cluster is kept in one byte, so of a cluster with more than
255 bytes only as many are taken back as its length has beyond a multiple of 256.

Main results:

- `type?_backspace`: a backspace takes back the cluster before it.
- `typed?_of_ascii`: a line of printable characters below `0x7F` is as it was typed.
-/

namespace PostfixCalc

/-- What is left of a line under way. -/
structure Typing where
  /-- The characters that are left, the last one first. -/
  kept : List Char
  /-- The lengths of the clusters that are left, the last one first. -/
  lengths : List Nat
  deriving DecidableEq

namespace Typing

/-- Nothing is typed yet. -/
def empty : Typing := ⟨[], []⟩

/-- The key that takes back a cluster. -/
def backspace : Char := '\x08'

/-- The number of bytes of characters. -/
def byteLength (text : List Char) : Nat := text.foldr (fun c bytes => c.utf8Size + bytes) 0

/-- Take back as many bytes of characters, of which the last one comes first; none if that would cut
a character apart. -/
def takeBack? (bytes : Nat) : List Char → Option (List Char)
  | [] => if bytes = 0 then some [] else none
  | c :: kept =>
    if bytes = 0 then some (c :: kept)
    else if c.utf8Size ≤ bytes then takeBack? (bytes - c.utf8Size) kept
    else none

/-- Type one cluster. -/
def type? (t : Typing) (cluster : List Char) : Option Typing :=
  if cluster = [backspace] then
    match t.lengths with
    | [] => some t
    | length :: lengths => (takeBack? length t.kept).map fun kept => ⟨kept, lengths⟩
  else some ⟨cluster.reverse ++ t.kept, byteLength cluster % 256 :: t.lengths⟩

theorem byteLength_cons (c : Char) (text : List Char) :
    byteLength (c :: text) = c.utf8Size + byteLength text := rfl

theorem byteLength_append (front back : List Char) :
    byteLength (front ++ back) = byteLength front + byteLength back := by
  induction front with
  | nil => exact (Nat.zero_add _).symm
  | cons c front ih => rw [List.cons_append, byteLength_cons, byteLength_cons, ih, Nat.add_assoc]

theorem byteLength_reverse (text : List Char) : byteLength text.reverse = byteLength text := by
  induction text with
  | nil => rfl
  | cons c text ih =>
    rw [List.reverse_cons, byteLength_append, ih, byteLength_cons c text, Nat.add_comm]
    rfl

/-- Taking back the length of what came last leaves what came before it. -/
theorem takeBack?_size (last kept : List Char) :
    takeBack? (byteLength last) (last ++ kept) = some kept := by
  induction last with
  | nil => cases kept <;> rfl
  | cons c last ih =>
    have hpos := c.utf8Size_pos
    rw [List.cons_append, takeBack?, byteLength_cons, if_neg (by omega), if_pos (by omega),
      Nat.add_sub_cancel_left, ih]

/-- A backspace takes back the cluster before it, if its length fits in a byte. -/
theorem type?_backspace {cluster : List Char} (hcluster : cluster ≠ [backspace])
    (hlength : byteLength cluster < 256) (t : Typing) :
    (t.type? cluster).bind (·.type? [backspace]) = some t := by
  have hback := takeBack?_size cluster.reverse t.kept
  rw [byteLength_reverse] at hback
  simp only [type?, hcluster, if_false, if_true, Option.bind_some, Nat.mod_eq_of_lt hlength, hback]
  rfl

/-- Clusters that are no backspaces are kept in their order. -/
theorem map_kept_foldlM_type? {clusters : List (List Char)} (h : [backspace] ∉ clusters)
    (t : Typing) :
    (clusters.foldlM type? t).map Typing.kept = some (clusters.flatten.reverse ++ t.kept) := by
  induction clusters generalizing t with
  | nil => rfl
  | cons cluster clusters ih =>
    have hcluster : ¬cluster = [backspace] := fun heq => h (heq ▸ List.mem_cons_self)
    rw [List.foldlM_cons, type?, if_neg hcluster]
    refine (ih (fun hmem => h (List.mem_cons_of_mem cluster hmem)) _).trans ?_
    simp

end Typing

/-- The text of a line of input without its line break; none if a backspace cuts a character apart.
A carriage return at the end belongs to the line break. -/
def typed? (line : String) : Option String :=
  let text := line.toList
  let text := if text.getLast? = some '\r' then text.dropLast else text
  ((clusters text).foldlM Typing.type? Typing.empty).map fun t => String.ofList t.kept.reverse

/-- A line of printable characters below `0x7F` is as it was typed. -/
theorem typed?_of_ascii {text : List Char} (h : ∀ c ∈ text, 0x20 ≤ c.toNat ∧ c.toNat < 0x7F) :
    typed? (String.ofList text) = some (String.ofList text) := by
  have hlast : ¬text.getLast? = some '\r' := fun hreturn =>
    absurd (h '\r' (List.mem_of_getLast? hreturn)).1 (by decide)
  have hbackspace : [Typing.backspace] ∉ clusters text := by
    rw [clusters_of_ascii h]
    intro hmem
    obtain ⟨c, hc, heq⟩ := List.mem_map.1 hmem
    have hcode : c = Typing.backspace := List.head_eq_of_cons_eq heq
    exact absurd (hcode ▸ (h c hc).1) (by decide)
  have hkept := Typing.map_kept_foldlM_type? hbackspace Typing.empty
  rw [flatten_clusters, Typing.empty, List.append_nil] at hkept
  obtain ⟨t, ht, hreverse⟩ := Option.map_eq_some_iff.1 hkept
  simp only [typed?, String.toList_ofList, hlast, if_false]
  rw [Typing.empty, ht, Option.map_some, hreverse, List.reverse_reverse]

end PostfixCalc
