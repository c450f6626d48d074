import ArticleAudit.Markdown.ResourceName
import ArticleAudit.Proofs.Block.Nesting

/-!
# Where resource names stand

A construct that names a resource type is an initial part of the text it was read from, and its type
ends in a character that is not blank (`Named`). So the blocks of the names in a line are laid out
over the line, the namespace within the name (`laid_resourceBlocks`).
-/

set_option autoImplicit false

namespace ArticleAudit.Markdown

open ArticleAudit.Text

variable {source cs : List Char}

/-- What holds of a name that was read from the start of a text. -/
structure Named (name : ResourceName) (cs : List Char) : Prop where
  read : ∃ after, cs = name.source ++ after
  inked : ∃ last, name.typeName.getLast? = some last ∧ isBlank last = false

theorem getLast?_takeWhile {p : Char → Bool} (h : cs.takeWhile p ≠ []) :
    ∃ last, (cs.takeWhile p).getLast? = some last ∧ p last = true :=
  ⟨_, List.getLast?_eq_some_getLast h, List.mem_takeWhile_imp (List.getLast_mem h)⟩

/-- A name is read as its provider, a slash, its type and the rest. -/
theorem readName?_eq_some {before rest : List Char} {name : ResourceName}
    (h : readName? before cs = some (name, rest)) :
    name.before = before ∧ cs = name.provider ++ '/' :: name.typeName ++ rest ∧
      ∃ last, name.typeName.getLast? = some last ∧ isBlank last = false := by
  unfold readName? at h
  have hprovider := List.takeWhile_prefix (l := cs) fun c => c.isAlphanum || c == '.'
  generalize List.takeWhile (fun c => c.isAlphanum || c == '.') cs = provider at *
  obtain ⟨afterProvider, rfl⟩ := hprovider
  simp only [List.drop_left] at h
  split at h
  · next after =>
    split at h
    · next hok =>
      simp only [Option.some.injEq, Prod.mk.injEq] at h
      obtain ⟨rfl, rfl⟩ := h
      have htype : after.takeWhile (fun c => c.isAlphanum || c == '/') ≠ [] := by
        intro hnil
        simp [hnil] at hok
      obtain ⟨last, hlast, hp⟩ := getLast?_takeWhile htype
      refine ⟨rfl, ?_, last, hlast, ?_⟩
      · have hsplit := List.prefix_iff_eq_append.mp
          (List.takeWhile_prefix (l := after) fun c => c.isAlphanum || c == '/')
        rw [List.append_assoc, List.cons_append, hsplit]
      · rcases Bool.or_eq_true _ _ ▸ hp with hp | hp
        · exact isBlank_of_isAlphanum hp
        · obtain rfl : last = '/' := by simpa using hp
          rfl
    · simp at h
  · simp at h

theorem named_memberAt? {name : ResourceName} (h : memberAt? cs = some name) :
    Named name cs := by
  unfold memberAt? at h
  obtain ⟨rest, hrest, h⟩ := Option.bind_eq_some_iff.mp h
  have hcs := eq_append_of_isPrefixOf? hrest
  have hgap := List.takeWhile_append_dropWhile (p := isBlank) (l := rest)
  split at h
  · next rest' hcolon =>
    have hgap' := List.takeWhile_append_dropWhile (p := isBlank) (l := rest')
    split at h
    · next rest'' hquote =>
      obtain ⟨⟨name', after⟩, hname, h⟩ := Option.bind_eq_some_iff.mp h
      obtain ⟨hbefore, hread, hink⟩ := readName?_eq_some hname
      simp only at h
      split at h
      · next hhead =>
        obtain rfl := Option.some.inj h
        obtain ⟨after', rfl⟩ := List.head?_eq_some_iff.mp (by simpa using hhead)
        refine ⟨⟨after', ?_⟩, hink⟩
        rw [hcs, ← hgap, hcolon, ← hgap', hquote, hread]
        simp [ResourceName.source, hbefore]
      · simp at h
    · simp at h
  · simp at h

theorem named_declarationAt? {name : ResourceName} (h : declarationAt? cs = some name) :
    Named name cs := by
  unfold declarationAt? at h
  obtain ⟨rest, hrest, h⟩ := Option.bind_eq_some_iff.mp h
  have hcs := eq_append_of_isPrefixOf? hrest
  have hgap := List.takeWhile_append_dropWhile (p := isBlank) (l := rest)
  have hsymbol := List.takeWhile_append_dropWhile (p := Unicode.isWord)
    (l := rest.dropWhile isBlank)
  have hgap' := List.takeWhile_append_dropWhile (p := isBlank)
    (l := (rest.dropWhile isBlank).dropWhile Unicode.isWord)
  simp only at h
  split at h
  · simp at h
  · split at h
    · next rest' hquote =>
      obtain ⟨⟨name', after⟩, hname, h⟩ := Option.bind_eq_some_iff.mp h
      obtain ⟨hbefore, hread, hink⟩ := readName?_eq_some hname
      simp only at h
      generalize hversion : (if (after.head? == some '@') = true then
        List.takeWhile (fun x => x != '\'') after else []) = version at h
      have hinit : version <+: after := by
        rw [← hversion]
        split
        · exact List.takeWhile_prefix _
        · exact List.nil_prefix
      obtain ⟨afterVersion, rfl⟩ := hinit
      simp only [List.drop_left] at h
      split at h
      · next hhead =>
        obtain rfl := Option.some.inj h
        obtain ⟨after', rfl⟩ := List.head?_eq_some_iff.mp (by simpa using hhead)
        refine ⟨⟨after', ?_⟩, hink⟩
        rw [hcs, ← hgap, ← hsymbol, ← hgap', hquote, hread]
        simp [ResourceName.source, hbefore]
      · simp at h
    · simp at h

/-! ## Blocks of names -/

/-- The block of a name is laid out where the name is written. -/
theorem laid_nameBlock {position hi : Nat} {name : ResourceName} (h : Stands source position cs)
    (hname : Named name cs) (hink : InkStopsBy position cs hi) :
    Block.Laid source position (nameBlock position name).span.stop [nameBlock position name] ∧
      (nameBlock position name).span.stop ≤ hi := by
  obtain ⟨after, hcs⟩ := hname.read
  obtain ⟨last, hlast, hblank⟩ := hname.inked
  have hslash : byteSize ('/' :: name.typeName) = 1 + byteSize name.typeName := rfl
  have hstop : (nameBlock position name).span.stop = position + byteSize name.before +
      byteSize (name.provider ++ '/' :: name.typeName) := by
    show position + byteSize name.before + byteSize name.provider + 1 + byteSize name.typeName = _
    rw [byteSize_append, hslash]
    omega
  have hsplit : cs = name.before ++ (name.provider ++ '/' :: name.typeName) ++
      (name.after ++ after) := by
    rw [hcs]
    simp [ResourceName.source]
  rw [hsplit] at h hink
  have hfull : Stands source (position + byteSize name.before)
      (name.provider ++ '/' :: name.typeName) := h.middle
  have hprovider : Stands source (position + byteSize name.before) name.provider := hfull.left
  have hchild : Block.Laid source (position + byteSize name.before)
      (position + byteSize name.before + byteSize name.provider)
      (nameBlock position name).children := by
    refine .singleton rfl ?_ hprovider.boundary hprovider.boundary_stop (Nat.le_add_right _ _)
      (.nil _ _ _) (Block.innerFits_of_none rfl rfl) rfl
    rw [hprovider.slice]
    rfl
  have hblock : Block.Laid source (position + byteSize name.before)
      (position + byteSize name.before + byteSize (name.provider ++ '/' :: name.typeName))
      [nameBlock position name] := by
    refine .singleton ?_ ?_ hfull.boundary hfull.boundary_stop (Nat.le_add_right _ _)
      (hchild.weaken (Nat.le_refl _) ?_) (Block.innerFits_of_none rfl rfl) rfl
    · rw [← hstop]
      rfl
    · rw [hfull.slice]
      rfl
    · rw [byteSize_append]
      omega
  rw [hstop]
  refine ⟨hblock.weaken (Nat.le_add_right _ _) (Nat.le_refl _), hink.part_le ?_ hblank⟩
  rw [List.getLast?_append_of_ne_nil _ (List.cons_ne_nil _ _), List.getLast?_cons, hlast]
  rfl

/-- The blocks of the names that are found in a text are laid out over it. -/
theorem laid_findNames {read : List Char → Option ResourceName} {position hi : Nat}
    (hread : ∀ cs name, read cs = some name → Named name cs) (h : Stands source position cs)
    (hink : InkStopsBy position cs hi) :
    Block.Laid source position hi
      ((findNames read position cs).map fun (position, name) => nameBlock position name) := by
  fun_induction findNames read position cs with
  | case1 position => exact .nil _ _ _
  | case2 position c rest name hname ih =>
    have hnamed := hread _ _ hname
    obtain ⟨hblock, hstop⟩ := laid_nameBlock h hnamed hink
    obtain ⟨after, hafter⟩ := hnamed.read
    have hrest : rest.drop (name.source.length - 1) = after :=
      drop_of_cons_eq_append hafter (by simp [ResourceName.source])
    rw [hafter] at h hink
    rw [hrest] at ih ⊢
    have hmore := ih h.right hink.right
    have hslash : Char.utf8Size '/' = 1 := rfl
    have hsize : (nameBlock position name).span.stop = position + byteSize name.before +
        byteSize name.provider + 1 + byteSize name.typeName := rfl
    refine hblock.append (hmore.weaken ?_ (Nat.le_refl hi)) (by omega) hstop
    rw [hsize]
    simp only [ResourceName.source, byteSize_append, byteSize_cons, hslash]
    omega
  | case3 position c rest hname ih =>
    have h' : Stands source position ([c] ++ rest) := h
    have hink' : InkStopsBy position ([c] ++ rest) hi := hink
    exact (ih h'.right hink'.right).weaken (Nat.le_add_right _ _) (Nat.le_refl hi)

theorem laid_resourceBlocks {base hi : Nat} (language : List Char) (h : Stands source base cs)
    (hink : InkStopsBy base cs hi) :
    Block.Laid source base hi (resourceBlocks language cs base) := by
  unfold resourceBlocks
  refine laid_findNames ?_ h hink
  intro cs name hname
  split at hname
  · exact named_declarationAt? hname
  · exact named_memberAt? hname

end ArticleAudit.Markdown
