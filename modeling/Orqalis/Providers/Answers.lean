import Orqalis.Providers.Schemas

/-!
# Answers to an adapted schema

The model answers to the adapted schema, and its answer is validated against the original. So the
adapted schema must take what the original does; and in the strict grammar it must take nothing that
leaves a declared member out or adds another.
-/

namespace Orqalis

open Lib Lib.Schema Lib.Outcome

namespace SchemaAdapter

variable {P : Printer} {A : Adapter}

/-! ## An adapted node -/

section Nodes

variable {node kept final : Members} {name : String}

/-- What is noted of the constraints leaves what is looked up as it is. -/
theorem describe_looks {constraints result : Members} (hnodup : (result.map Prod.fst).Nodup)
    (hname : name ∈ looked) : held (describe P A constraints result) name = held result name := by
  unfold describe
  split_ifs
  · rfl
  · have hnames : ∀ name ∈ looked, name ≠ "description" := by decide
    rw [held_put hnodup, if_neg (hnames _ hname)]

/-- What a node holds of a keyword that is looked up is held of its image, or it is not there. -/
theorem held_putAll (hA : Lawful P A) (hnodup : (node.map Prod.fst).Nodup)
    (hkept : visitMembers P A node = .ok kept) (hname : name ∈ looked) :
    (name, held node name) ∈ node ∧
        Image P A (name, held node name) (name, held (putAll [] kept) name) ∨
      held node name = .obj [] ∧ held (putAll [] kept) name = .obj [] := by
  have hputs : ((putAll [] kept).map Prod.fst).Nodup := nodup_putAll List.nodup_nil
  have hsource : ∀ {m'}, m' ∈ kept → m'.1 = name → ∃ v, (name, v) ∈ node ∧
      Image P A (name, v) m' := by
    intro m' hm' hkey
    obtain ⟨⟨key, v⟩, hm, himage⟩ := exists_image hkept hm'
    have hnames : ∀ name ∈ looked, name ∉ ["enum", "anyOf"] := by decide
    obtain rfl : key = name :=
      ((hA.rewrites himage).source (hkey ▸ hnames _ hname)).trans hkey
    exact ⟨v, hm, himage⟩
  by_cases hv : ∃ v, (name, v) ∈ node
  · obtain ⟨v, hv⟩ := hv
    obtain ⟨⟨key, v'⟩, hmem, himage⟩ := image_mem hkept hv (hA.writes hname)
    have hkey : key = name := by
      cases hA.rewrites himage with
      | const hconst => exact absurd (show "const" ∈ looked from hconst ▸ hname) (by decide)
      | table _ hkey | schema _ _ hkey => exact hkey
      | list _ _ hkey =>
        refine hkey.trans (if_neg fun hone => ?_)
        exact absurd (show "oneOf" ∈ looked from hone ▸ hname) (by decide)
    subst hkey
    refine .inl ?_
    have hsame : ∀ m' ∈ kept, m'.1 = key → m' = (key, v') := by
      intro m' hm' hkey
      obtain ⟨w, hw, himage'⟩ := hsource hm' hkey
      obtain ⟨-, rfl⟩ := Prod.mk.inj (eq_of_mem_nodup hnodup hv hw rfl)
      exact Option.some.inj (Except.ok.inj (himage'.symm.trans himage))
    have hput : (key, v') ∈ putAll [] kept :=
      mem_putAll (.inr hmem) (fun y hy => absurd hy List.not_mem_nil) hsame
    rw [held_of_mem hnodup hv, held_of_mem hputs hput]
    exact ⟨hv, himage⟩
  · have hnot : ∀ v, (name, v) ∉ node := fun v hmem => hv ⟨v, hmem⟩
    refine .inr ⟨held_of_not_mem hnodup hnot, held_of_not_mem hputs fun v' hmem => ?_⟩
    obtain ⟨v, hmem, -⟩ := hsource ((mem_of_mem_putAll hmem).resolve_left List.not_mem_nil) rfl
    exact hnot v hmem

theorem names_visitTable {v v' : Doc} (h : visitTable P A v = .ok v') : v'.names = v.names := by
  cases v with
  | obj ms =>
    obtain ⟨ms', rfl, hall⟩ := visitTable_obj h
    show ms'.map Prod.fst = ms.map Prod.fst
    clear h
    induction hall with
    | nil => rfl
    | cons hm _ ih => rw [List.map_cons, List.map_cons, ih, hm.1]
  | null | bool | num | str | arr => rw [(visitTable_other rfl).mp h]

/-- A node declares what it did. -/
theorem declared_putAll (hA : Lawful P A) (hnodup : (node.map Prod.fst).Nodup)
    (hkept : visitMembers P A node = .ok kept) :
    declared (putAll [] kept) = declared node := by
  unfold declared
  obtain ⟨-, himage⟩ | ⟨hnode, hkept⟩ :=
    held_putAll hA hnodup hkept (by decide : "properties" ∈ looked)
  · exact names_visitTable ((hA.rewrites himage).entries (by decide : "properties" ∈ _)).2
  · rw [hnode, hkept]

/-- A node speaks of as many items one by one as it did. -/
theorem leading_putAll (hA : Lawful P A) (hnodup : (node.map Prod.fst).Nodup)
    (hkept : visitMembers P A node = .ok kept) : leading (putAll [] kept) = leading node := by
  unfold leading
  obtain ⟨-, himage⟩ | ⟨hnode, hkept⟩ :=
    held_putAll hA hnodup hkept (by decide : "prefixItems" ∈ looked)
  · by_cases harr : (held node "prefixItems").isArray = true
    · have hlist := ((hA.rewrites himage).alternatives (by decide : "prefixItems" ∈ _) harr).2
      cases hv : held node "prefixItems" with
      | arr ss =>
        rw [hv] at hlist
        obtain ⟨ss', hss, hall⟩ := visitList_arr hlist
        rw [show held (putAll [] kept) "prefixItems" = .arr ss' from hss]
        exact hall.length_eq.symm
      | null | bool | num | str | obj =>
        rw [hv] at harr
        cases harr
    · have hvisit := ((hA.rewrites himage).plain (by decide : "prefixItems" ≠ "const")
        (by decide : "prefixItems" ∉ _) fun _ => Bool.eq_false_iff.mpr harr).2
      rw [items_of_visit hvisit (Bool.eq_false_iff.mpr harr)]
  · rw [hnode, hkept]

/-- A node of type object was one before. -/
theorem type_putAll (hA : Lawful P A) (hnodup : (node.map Prod.fst).Nodup)
    (hkept : visitMembers P A node = .ok kept)
    (htype : held (putAll [] kept) "type" = .str "object") : held node "type" = .str "object" := by
  obtain ⟨-, himage⟩ | ⟨-, hkept⟩ := held_putAll hA hnodup hkept (by decide : "type" ∈ looked)
  · rw [htype] at himage
    have hvisit : visit P A (held node "type") = .ok (.str "object") :=
      ((hA.rewrites himage).plain (by decide : "type" ≠ "const") (by decide : "type" ∉ _)
        fun hlist => absurd hlist (by decide : "type" ∉ _)).2
    exact (eq_of_visit hvisit rfl).symm
  · rw [hkept] at htype
    cases htype

/-- What is described is what was closed, but for its description. -/
theorem mem_describe {constraints closed : Members} {m : String × Doc}
    (hm : m ∈ describe P A constraints closed) : m ∈ closed ∨ m.1 = "description" := by
  unfold describe at hm
  split_ifs at hm
  · exact .inl hm
  · rcases mem_put.mp hm with rfl | ⟨hm, -⟩
    · exact .inr rfl
    · exact .inl hm

/-- The keywords of an adapted node: each is written of one of the node's, is the description, or
closes an object. -/
theorem member_of_finish (hA : Lawful P A) (hkept : visitMembers P A node = .ok kept)
    (h : finish P A node kept = .ok final) {m' : String × Doc} (hm : m' ∈ final) :
    (∃ m ∈ node, Image P A m m') ∨ m'.1 = "description" ∨ held final "type" = .str "object" ∧
      (m' = ("additionalProperties", .bool false) ∨ m' = ("properties", .obj []) ∨
        m' = ("required", .arr ((declared final).map .str))) := by
  obtain ⟨closed, hclosed, h⟩ := bind_eq_ok.mp h
  cases h
  have hputs : ((putAll [] kept).map Prod.fst).Nodup := nodup_putAll List.nodup_nil
  have hnodup := hA.nodup hclosed hputs
  rcases mem_describe hm with hmem | hdescription
  · rcases hA.closes hclosed hputs m' hmem with hput | ⟨hobject, hcloses⟩
    · exact .inl (exists_image hkept ((mem_of_mem_putAll hput).resolve_left List.not_mem_nil))
    · refine .inr (.inr ⟨?_, ?_⟩)
      · exact (describe_looks hnodup (by decide)).trans (objectNode_iff.mp hobject)
      · rw [declared, describe_looks hnodup (by decide : "properties" ∈ looked)]
        exact hcloses
  · exact .inr (.inl hdescription)

/-- What an adapted node is: it declares what the node did, it is of type object only where the
node was, and its tables are those of the node, adapted. -/
structure Finished (P : Printer) (A : Adapter) (node final : Members) : Prop where
  nodup : (final.map Prod.fst).Nodup
  declared : declared final = declared node
  leading : leading final = leading node
  type : held final "type" = .str "object" → held node "type" = .str "object"
  table : ∀ name ∈ tables, visitTable P A (held node name) = .ok (held final name)

theorem finished (hA : Lawful P A) (hnodup : (node.map Prod.fst).Nodup)
    (hkept : visitMembers P A node = .ok kept) (h : finish P A node kept = .ok final) :
    Finished P A node final := by
  obtain ⟨closed, hclosed, h⟩ := bind_eq_ok.mp h
  cases h
  have hputs : ((putAll [] kept).map Prod.fst).Nodup := nodup_putAll List.nodup_nil
  have hnodup' := hA.nodup hclosed hputs
  have hlooks : ∀ name ∈ looked, held (describe P A (node.filter fun m =>
      (A.treatment m.1 m.2).notes) closed) name = held (putAll [] kept) name := fun name hname =>
    (describe_looks hnodup' hname).trans (hA.looks hclosed hputs name hname)
  refine ⟨?_, ?_, ?_, ?_, fun name hname => ?_⟩
  · unfold describe
    split_ifs
    · exact hnodup'
    · exact nodup_put hnodup'
  · rw [← declared_putAll hA hnodup hkept]
    exact congrArg Doc.names (hlooks "properties" (by decide))
  · rw [← leading_putAll hA hnodup hkept]
    exact congrArg (fun v => v.items.length) (hlooks "prefixItems" (by decide))
  · rw [hlooks "type" (by decide)]
    exact type_putAll hA hnodup hkept
  · have hlooked : name ∈ looked := (by decide : tables ⊆ looked) hname
    have htable : name ∈ tableKeywords := (by decide : tables ⊆ tableKeywords) hname
    rw [hlooks name hlooked]
    obtain ⟨-, himage⟩ | ⟨hnode, hnone⟩ := held_putAll hA hnodup hkept hlooked
    · exact ((hA.rewrites himage).entries htable).2
    · rw [hnode, hnone]
      rfl

end Nodes

/-! ## Answers -/

section Answers

variable {V : Validator} {root root' : Members}

/-- What a reference stands for is adapted with the definitions. -/
def Linked (P : Printer) (A : Adapter) (root root' : Members) : Prop :=
  ∀ pointer s, resolve root pointer = some s →
    ∃ s', Adapted P A s s' ∧ resolve root' pointer = some s'

/-- What adapting a question keeps of an answer. -/
def Kept (P : Printer) (A : Adapter) (V : Validator) (root' : Members) (v : Doc) : Query → Prop
  | .schema s => ∀ s', Adapted P A s s' → Judged V root' (.schema s') v .answer
  | .keyword node name value => ∀ node' m', Image P A (name, value) m' →
      declared node' = declared node → leading node' = leading node →
      Judged V root' (.keyword node' m'.1 m'.2) v .answer

theorem kept_of_judged (hA : Lawful P A) (hroot : Linked P A root root') {q : Query} {v : Doc}
    {p : Grade} (h : Judged V root q v p) (hp : p = .answer) : Kept P A V root' v q := by
  have hgood : Grade.answer.good = true := rfl
  induction h with
  | always =>
    intro s' hs'
    rw [(visit_other rfl).mp hs']
    exact .always hgood
  | never | fails | denies | property | surplus | item | led | notAll | notAny | notOne
  | several => cases hp
  | @node ms v p hp' hnodup hexact h ih =>
    subst hp
    intro s' hs'
    obtain ⟨kept, final, hkept, hfinish, rfl⟩ := visit_obj.mp hs'
    have hfinal := finished hA hnodup hkept hfinish
    have hexact := hexact rfl
    refine .node hgood hfinal.nodup (fun _ htype name => ?_) fun m' hm' => ?_
    · rw [hfinal.declared]
      exact hexact (hfinal.type htype) name
    · rcases member_of_finish hA hkept hfinish hm' with
        ⟨m, hm, himage⟩ | hdescription | ⟨htype, hcloses⟩
      · exact ih m hm rfl final m' himage hfinal.declared hfinal.leading
      · exact .silent hgood (hdescription ▸ by decide)
      · have hmembers := hexact (hfinal.type htype)
        rcases hcloses with rfl | rfl | rfl
        · refine .additional hgood rfl fun x hx hnot => absurd ?_ hnot
          rw [hfinal.declared]
          exact (hmembers x.1).mp (List.mem_map_of_mem hx)
        · exact .properties hgood rfl fun q hq => absurd hq List.not_mem_nil
        · have hobject := V.isObject_of_holds v
            ((h _ (mem_of_held (hfinal.type htype) (by simp))).holds_of_good hgood (by decide))
          refine .holds hgood (by decide : "required" ∈ assertions) rfl ?_
          refine (V.holds_required _ v hobject).mpr fun name hname => ?_
          rw [hfinal.declared] at hname
          exact (hmembers name).mpr hname
  | @silent node name value v p hp' hname =>
    subst hp
    intro node' m' himage _ _
    exact .silent hgood ((hA.rewrites himage).silent hname)
  | @holds node name value v p hp' hname hvalue h =>
    subst hp
    intro node' m' himage _ _
    rcases (hA.rewrites himage).asserted hname hvalue with rfl | ⟨hconst, rfl⟩
    · exact .holds hgood hname hvalue h
    · refine .holds hgood (by decide : "enum" ∈ assertions) rfl ?_
      rw [← V.holds_const, ← show name = "const" from hconst]
      exact h
  | @properties node name props v p hp' hname h ih =>
    subst hp hname
    intro node' m' himage _ _
    obtain ⟨hkey, hv⟩ := (hA.rewrites himage).entries (by decide : "properties" ∈ tableKeywords)
    obtain ⟨props', hprops, hall⟩ := visitTable_obj hv
    rw [hprops]
    refine .properties hgood hkey fun q' hq' x hx hname => ?_
    obtain ⟨q, hq, hname', hchild⟩ := exists_left hall hq'
    exact ih q hq x hx (hname.trans hname') rfl q'.2 hchild
  | @additional node name s v p hp' hname h ih =>
    subst hp hname
    intro node' m' himage hdeclared _
    obtain ⟨hkey, hv⟩ := (hA.rewrites himage).child (by decide : "additionalProperties" ∈ _)
    refine .additional hgood hkey fun x hx hnot => ?_
    exact ih x hx (hdeclared ▸ hnot) rfl m'.2 hv
  | @items node name s v p hp' hname h ih =>
    subst hp hname
    intro node' m' himage _ hleading
    obtain ⟨hkey, hv⟩ := (hA.rewrites himage).child (by decide : "items" ∈ _)
    refine .items hgood hkey fun x hx => ?_
    exact ih x (hleading ▸ hx) rfl m'.2 hv
  | @leading node name ss v p hp' hname h ih =>
    subst hp hname
    intro node' m' himage _ _
    obtain ⟨hkey, hv⟩ := (hA.rewrites himage).alternatives (by decide : "prefixItems" ∈ _) rfl
    obtain ⟨ss', hss, hall⟩ := visitList_arr hv
    rw [hss]
    refine .leading hgood (hkey.trans (if_neg (by decide : "prefixItems" ≠ "oneOf")))
      fun x hx => ?_
    obtain ⟨s, hs, hchild⟩ := exists_left_zip hall hx
    exact ih _ hs rfl x.1 hchild
  | @allOf node name ss v p hp' hname h ih =>
    subst hp hname
    intro node' m' himage _ _
    obtain ⟨hkey, hv⟩ := (hA.rewrites himage).alternatives (by decide : "allOf" ∈ _) rfl
    obtain ⟨ss', hss, hall⟩ := visitList_arr hv
    rw [hss]
    refine .allOf hgood (hkey.trans (if_neg (by decide : "allOf" ≠ "oneOf"))) fun s' hs' => ?_
    obtain ⟨s, hs, hchild⟩ := exists_left hall hs'
    exact ih s hs rfl s' hchild
  | @anyOf node name ss s v p hp' hname hs h ih =>
    subst hp hname
    intro node' m' himage _ _
    obtain ⟨hkey, hv⟩ := (hA.rewrites himage).alternatives (by decide : "anyOf" ∈ _) rfl
    obtain ⟨ss', hss, hall⟩ := visitList_arr hv
    rw [hss]
    obtain ⟨s', hs', hchild⟩ := exists_right hall hs
    exact .anyOf hgood (hkey.trans (if_neg (by decide : "anyOf" ≠ "oneOf"))) hs'
      (ih rfl s' hchild)
  | @oneOf node name before s after v p hp' hname h hothers ih _ =>
    subst hp hname
    intro node' m' himage _ _
    obtain ⟨hkey, hv⟩ := (hA.rewrites himage).alternatives (by decide : "oneOf" ∈ _) rfl
    obtain ⟨ss', hss, hall⟩ := visitList_arr hv
    rw [hss]
    obtain ⟨s', hs', hchild⟩ := exists_right hall
      (List.mem_append_right before (List.mem_cons_self ..) : s ∈ before ++ s :: after)
    exact .anyOf hgood (hkey.trans (if_pos rfl)) hs' (ih rfl s' hchild)
  | @ref node name pointer s v p hname hs h ih =>
    subst hp hname
    intro node' m' himage _ _
    obtain rfl := (hA.rewrites himage).reference rfl rfl
    obtain ⟨s', hchild, hs'⟩ := hroot pointer s hs
    exact .ref rfl hs' (ih rfl s' hchild)

theorem linked (hfinal : Finished P A root root') : Linked P A root root' := by
  intro pointer s hs
  obtain ⟨entry, hentry, hs⟩ := Option.bind_eq_some_iff.mp hs
  have htable := hfinal.table entry.1 (mem_tables_of_target hentry)
  cases hheld : held root entry.1 with
  | obj ms =>
    rw [hheld] at hs htable
    obtain ⟨ms', hms', hall⟩ := visitTable_obj htable
    obtain ⟨s', hchild, hs'⟩ := lookup_right hall hs
    refine ⟨s', hchild, ?_⟩
    rw [resolve, hentry, Option.bind_some, hms']
    exact hs'
  | null | bool | num | str | arr =>
    rw [hheld] at hs
    cases hs

/-- An adapted schema takes every answer that the schema does. -/
theorem answers_of_finish (hA : Lawful P A) {kept : Members}
    (hkept : visitMembers P A root = .ok kept) (hfinish : finish P A root kept = .ok root')
    {v : Doc} (h : Judged V root (.schema (.obj root)) v .answer) :
    Judged V root' (.schema (.obj root')) v .answer := by
  have hnodup : (root.map Prod.fst).Nodup := by
    cases h with
    | node _ hnodup => exact hnodup
  have hvisit : Adapted P A (.obj root) (.obj root') :=
    visit_obj.mpr ⟨kept, root', hkept, hfinish, rfl⟩
  exact kept_of_judged hA (linked (finished hA hnodup hkept hfinish)) h rfl _ hvisit

/-! ## The strict grammar -/

/-- The question is one of an adapted schema, or of a keyword of one. -/
def Strict (P : Printer) (A : Adapter) : Query → Prop
  | .schema s' => ∃ s, Adapted P A s s'
  | .keyword _ name value => (∃ m, Image P A m (name, value)) ∨ name ∈ silent ∨
      name = "required" ∧ value.isObject = false ∨
      name = "additionalProperties" ∧ value = .bool false ∨
      name = "properties" ∧ value = .obj []

theorem requireAll_strict {result closed : Members} (h : requireAll result = .ok closed)
    (hnodup : (result.map Prod.fst).Nodup) (htype : held closed "type" = .str "object") :
    ("additionalProperties", .bool false) ∈ closed ∧
      ("required", .arr ((declared closed).map .str)) ∈ closed := by
  have hproperties := requireAll_looks h hnodup (by decide : "properties" ∈ looked)
  have htype' := requireAll_looks h hnodup (by decide : "type" ∈ looked)
  obtain ⟨rfl, hobject⟩ | ⟨-, properties, hheld, hclosed⟩ := requireAll_ok h
  · exact absurd (objectNode_iff.mpr htype) (Bool.eq_false_iff.mp hobject)
  · rw [declared, hproperties, hheld, hclosed]
    refine ⟨mem_put.mpr (.inl rfl), mem_put.mpr (.inr ⟨mem_put.mpr (.inl rfl), ?_⟩)⟩
    exact (by decide : "required" ≠ "additionalProperties")

/-- An adapted object is closed, with every member it declares required. -/
theorem strict_of_finish {node kept final : Members} (h : finish P openai node kept = .ok final)
    (htype : held final "type" = .str "object") :
    ("additionalProperties", .bool false) ∈ final ∧
      ("required", .arr ((declared final).map .str)) ∈ final := by
  obtain ⟨closed, hclosed, h⟩ := bind_eq_ok.mp h
  cases h
  have hputs : ((putAll [] kept).map Prod.fst).Nodup := nodup_putAll List.nodup_nil
  have hnodup := (openai_lawful (P := P)).nodup hclosed hputs
  rw [describe_looks hnodup (by decide)] at htype
  obtain ⟨hadditional, hrequired⟩ := requireAll_strict hclosed hputs htype
  have hkeep : ∀ m ∈ closed, m.1 ≠ "description" →
      m ∈ describe P openai (node.filter fun m => (openai.treatment m.1 m.2).notes) closed := by
    intro m hm hname
    unfold describe
    split_ifs
    · exact hm
    · exact mem_put.mpr (.inr ⟨hm, hname⟩)
  rw [declared, describe_looks hnodup (by decide : "properties" ∈ looked)]
  exact ⟨hkeep _ hadditional (by decide : "additionalProperties" ≠ "description"),
    hkeep _ hrequired (by decide : "required" ≠ "description")⟩

/-- The entries of an adapted table are adapted. -/
theorem adapted_of_table {m : String × Doc} {ms' : Members}
    (h : visitTable P A m.2 = .ok (.obj ms')) {q : String × Doc} (hq : q ∈ ms') :
    ∃ s, Adapted P A s q.2 := by
  cases hm : m.2 with
  | obj ms =>
    rw [hm] at h
    obtain ⟨ms'', hms, hall⟩ := visitTable_obj h
    cases hms
    obtain ⟨e, -, -, hchild⟩ := exists_left hall hq
    exact ⟨e.2, hchild⟩
  | null | bool | num | str | arr =>
    rw [hm] at h
    cases (visitTable_other rfl).mp h

/-- The items of an adapted list are adapted. -/
theorem adapted_of_list {v : Doc} {ss' : List Doc} (hv : v.isArray = true)
    (h : visitList P A v = .ok (.arr ss')) {s' : Doc} (hs : s' ∈ ss') : ∃ s, Adapted P A s s' := by
  cases v with
  | arr ss =>
    obtain ⟨ss'', hss, hall⟩ := visitList_arr h
    cases hss
    obtain ⟨s, -, hchild⟩ := exists_left hall hs
    exact ⟨s, hchild⟩
  | null | bool | num | str | obj => cases hv

/-- What a reference of an adapted schema stands for is adapted. -/
theorem adapted_of_resolve {node kept : Members} (hkept : visitMembers P openai node = .ok kept)
    (hfinish : finish P openai node kept = .ok root') {pointer : String} {s' : Doc}
    (hs : resolve root' pointer = some s') : ∃ s, Adapted P openai s s' := by
  obtain ⟨⟨table, name⟩, hentry, hs⟩ := Option.bind_eq_some_iff.mp hs
  have htables : ∀ table ∈ tables, table ∈ tableKeywords ∧ table ∉ ["enum", "anyOf"] ∧
      table ≠ "description" ∧ table ≠ "additionalProperties" ∧ table ≠ "properties" ∧
      table ≠ "required" := by decide
  obtain ⟨htable, hsource, hdescription, hadditional, hproperties, hrequired⟩ :=
    htables table (mem_tables_of_target hentry)
  cases hheld : held root' table with
  | obj ms' =>
    rw [hheld] at hs
    obtain ⟨before, after, rfl, -⟩ := List.lookup_eq_some_iff.mp hs
    have hmem := mem_of_held hheld (by simp)
    have hq : (name, s') ∈ before ++ (name, s') :: after :=
      List.mem_append_right before (List.mem_cons_self ..)
    rcases member_of_finish openai_lawful hkept hfinish hmem with
      ⟨m, -, himage⟩ | hname | ⟨-, hname | hname | hname⟩
    · have hrewrites := openai_rewrites himage
      have hm := hrewrites.entries ((hrewrites.source hsource).symm ▸ htable)
      exact adapted_of_table hm.2 hq
    · exact absurd hname hdescription
    · exact absurd (Prod.mk.inj hname).1 hadditional
    · exact absurd (Prod.mk.inj hname).1 hproperties
    · exact absurd (Prod.mk.inj hname).1 hrequired
  | null | bool | num | str | arr =>
    rw [hheld] at hs
    cases hs

variable {node : Members} {name : String}

/-- A keyword that closes nothing is written of another. -/
theorem Strict.image {value : Doc} (h : Strict P A (.keyword node name value))
    (hname : name ∉ silent ++ ["required", "additionalProperties", "properties"]) :
    ∃ m, Image P A m (name, value) := by
  rw [List.mem_append, not_or] at hname
  rcases h with himage | hsilent | ⟨rfl, -⟩ | ⟨rfl, -⟩ | ⟨rfl, -⟩
  · exact himage
  · exact absurd hsilent hname.1
  · exact absurd (by decide) hname.2
  · exact absurd (by decide) hname.2
  · exact absurd (by decide) hname.2

/-- The items of a list of schemas are adapted. -/
theorem Strict.alternatives {ss : List Doc} (h : Strict P openai (.keyword node name (.arr ss)))
    (hname : name ∈ listKeywords) :
    name ≠ "oneOf" ∧ ∀ s' ∈ ss, ∃ s, Adapted P openai s s' := by
  have hnames : ∀ name ∈ listKeywords,
      name ∉ silent ++ ["required", "additionalProperties", "properties"] := by decide
  obtain ⟨m, himage⟩ := h.image (hnames _ hname)
  obtain ⟨hone, hvalue, hv⟩ := (openai_rewrites himage).listed hname rfl
  exact ⟨hone, fun s' hs' => adapted_of_list hvalue hv hs'⟩

/-- The schema of other members, or of items, is adapted. -/
theorem Strict.child {s' : Doc} (h : Strict P openai (.keyword node name s'))
    (hname : name ∈ ["additionalProperties", "items"]) : ∃ s, Adapted P openai s s' := by
  have hnames : ∀ name ∈ ["additionalProperties", "items"], name ∉ silent ∧ name ≠ "required" ∧
      name ≠ "properties" ∧ name ∉ ["enum", "anyOf"] := by decide
  obtain ⟨hsilent, hrequired, hproperties, hsource⟩ := hnames _ hname
  rcases h with ⟨m, himage⟩ | h | ⟨h, -⟩ | ⟨-, rfl⟩ | ⟨h, -⟩
  · have hrewrites := openai_rewrites himage
    exact ⟨m.2, (hrewrites.child ((hrewrites.source hsource).symm ▸ hname)).2⟩
  · exact absurd h hsilent
  · exact absurd h hrequired
  · exact ⟨.bool false, (visit_other rfl).mpr rfl⟩
  · exact absurd h hproperties

/-- A node of an adapted schema is one that was finished, and its keywords are of adapted
schemas. -/
theorem Strict.members {ms : Members} (h : Strict P openai (.schema (.obj ms))) :
    (∀ m ∈ ms, Strict P openai (.keyword ms m.1 m.2)) ∧ (held ms "type" = .str "object" →
      ("additionalProperties", .bool false) ∈ ms ∧
        ("required", .arr ((declared ms).map .str)) ∈ ms) := by
  obtain ⟨s, hs⟩ := h
  cases s with
  | obj node =>
    obtain ⟨kept, final, hkept, hfinish, hms⟩ := visit_obj.mp hs
    cases hms
    refine ⟨fun m hm => ?_, strict_of_finish hfinish⟩
    rcases member_of_finish openai_lawful hkept hfinish hm with
      ⟨x, -, himage⟩ | hdescription | ⟨-, rfl | rfl | rfl⟩
    · exact .inl ⟨x, himage⟩
    · exact .inr (.inl (hdescription ▸ by decide))
    · exact .inr (.inr (.inr (.inl ⟨rfl, rfl⟩)))
    · exact .inr (.inr (.inr (.inr ⟨rfl, rfl⟩)))
    · exact .inr (.inr (.inl ⟨rfl, rfl⟩))
  | null | bool | num | str | arr => cases (visit_other rfl).mp hs

theorem strict_of_judged {node kept : Members} (hkept : visitMembers P openai node = .ok kept)
    (hfinish : finish P openai node kept = .ok root') {q : Query} {v : Doc} {p : Grade}
    (h : Judged V root' q v p) (hp : p = .valid) (hq : Strict P openai q) :
    Judged V root' q v .answer := by
  have hgood : Grade.answer.good = true := rfl
  induction h with
  | always => exact .always hgood
  | never | fails | denies | property | surplus | item | led | notAll | notAny | notOne
  | several => cases hp
  | @node ms v p hp' hnodup hexact h ih =>
    subst hp
    obtain ⟨hmembers, hobject⟩ := Strict.members hq
    refine .node hgood hnodup (fun _ htype name => ?_) fun m hm => ih m hm rfl (hmembers m hm)
    obtain ⟨hadditional, hrequired⟩ := hobject htype
    have hvalue := V.isObject_of_holds v
      ((h _ (mem_of_held htype (by simp))).holds_of_good hp' (by decide))
    have hholds := (h _ hrequired).holds_of_good hp' (by decide : "required" ∈ assertions)
    constructor
    · intro hname
      obtain ⟨x, hx, rfl⟩ := List.mem_map.mp hname
      exact (h _ hadditional).declared_of_good hp' hx
    · exact (V.holds_required _ v hvalue).mp hholds name
  | silent _ hname => exact .silent hgood hname
  | holds _ hname hvalue h => exact .holds hgood hname hvalue h
  | @properties node name props v p hp' hname h ih =>
    subst hp hname
    refine .properties hgood rfl fun q hq' x hx hname => ih q hq' x hx hname rfl ?_
    rcases hq with ⟨m, himage⟩ | hsilent | ⟨hname, -⟩ | ⟨hname, -⟩ | ⟨-, hprops⟩
    · have hrewrites := openai_rewrites himage
      have hm := hrewrites.entries ((hrewrites.source (by decide : "properties" ∉ _)).symm ▸
        (by decide : "properties" ∈ tableKeywords))
      exact adapted_of_table hm.2 hq'
    · exact absurd hsilent (by decide)
    · exact absurd hname (by decide)
    · exact absurd hname (by decide)
    · cases hprops
      exact absurd hq' List.not_mem_nil
  | @additional node name s v p hp' hname h ih =>
    subst hp hname
    exact .additional hgood rfl fun x hx hnot => ih x hx hnot rfl (Strict.child hq (by decide))
  | @items node name s v p hp' hname h ih =>
    subst hp hname
    exact .items hgood rfl fun x hx => ih x hx rfl (Strict.child hq (by decide))
  | @leading node name ss v p hp' hname h ih =>
    subst hp hname
    exact .leading hgood rfl fun x hx =>
      ih x hx rfl ((Strict.alternatives hq (by decide)).2 x.1 (List.of_mem_zip hx).1)
  | @allOf node name ss v p hp' hname h ih =>
    subst hp hname
    exact .allOf hgood rfl fun s hs => ih s hs rfl ((Strict.alternatives hq (by decide)).2 s hs)
  | @anyOf node name ss s v p hp' hname hs h ih =>
    subst hp hname
    exact .anyOf hgood rfl hs (ih rfl ((Strict.alternatives hq (by decide)).2 s hs))
  | @oneOf node name before s after v p hp' hname h hothers ih _ =>
    subst hp hname
    exact absurd rfl (Strict.alternatives hq (by decide)).1
  | @ref node name pointer s v p hname hs h ih =>
    subst hp hname
    exact .ref rfl hs (ih rfl (adapted_of_resolve hkept hfinish hs))

/-- What the adapted schema finds valid has exactly the members its objects declare. -/
theorem strict_of_valid {kept : Members} (hkept : visitMembers P openai root = .ok kept)
    (hfinish : finish P openai root kept = .ok root') {v : Doc}
    (h : Judged V root' (.schema (.obj root')) v .valid) :
    Judged V root' (.schema (.obj root')) v .answer :=
  strict_of_judged hkept hfinish h rfl ⟨.obj root, visit_obj.mpr ⟨kept, root', hkept, hfinish, rfl⟩⟩

end Answers

section Schemas

variable {metaschema : Doc → Bool} {V : Validator} {schema adapted : Members} {v : Doc}

theorem openaiSchema_ok (h : openaiSchema P metaschema schema = .ok adapted) :
    ∃ kept, visitMembers P openai schema = .ok kept ∧
      finish P openai schema kept = .ok adapted := by
  obtain ⟨-, -, h⟩ := bind_eq_ok.mp h
  split_ifs at h
  exact bind_eq_ok.mp h

theorem anthropicSchema_ok (h : anthropicSchema P metaschema schema = .ok adapted) :
    ∃ kept, visitMembers P anthropic schema = .ok kept ∧
      finish P anthropic schema kept = .ok adapted := by
  obtain ⟨-, -, h⟩ := bind_eq_ok.mp h
  exact bind_eq_ok.mp h

end Schemas

namespace Sample

/-- The text of a value, if it is one. -/
def text : Doc → Option String
  | .str text => some text
  | _ => none

/-- The name of a value's type, a number's being the general one. -/
def kind : Doc → String
  | .null => "null"
  | .bool _ => "boolean"
  | .num _ => "number"
  | .str _ => "string"
  | .arr _ => "array"
  | .obj _ => "object"

/-- What a validator says of types, texts and required members. -/
def holds (name : String) (value v : Doc) : Bool :=
  if name = "type" then text value = some (kind v)
  else if name = "enum" then value.items.any fun w => (text w).isSome && text w = text v
  else if name = "const" then (text value).isSome && text value = text v
  else if name = "required" then value.items.all fun w => (text w).all fun t => t ∈ v.names
  else if name = "minLength" then (text v).all fun t => t ≠ ""
  else true

/-- A validator of texts. -/
def validator : Validator where
  holds := holds
  holds_const w v := by simp [holds, Doc.items]
  holds_required names v _ := by simp [holds, Doc.items, text]
  isObject_of_holds v h := by
    cases v with
    | obj => rfl
    | null | bool | num | str | arr => exact absurd h (by simp [holds, text, kind])

/-- The library's answers where only the shape of a schema is asked for. -/
def printer : Printer where
  dumps _ := "\x7b\"minLength\": 1\x7d"
  str _ := ""

/-- A text, in the schema's definitions. -/
def label : Doc := .obj [("type", .str "string"), ("minLength", .num 1)]

/-- A note is a text or nothing. -/
def note : Doc := .obj [("oneOf", .arr [.obj [("$ref", .str "#/$defs/label")],
  .obj [("type", .str "null")]])]

/-- A schema with a constant, alternatives of one, and a definition. -/
def schema : Members :=
  [("type", .str "object"),
    ("properties", .obj [("status", .obj [("const", .str "done")]), ("note", note)]),
    ("required", .arr [.str "status"]), ("$defs", .obj [("label", label)])]

/-- The label, its constraint described. -/
def describedLabel (heading : String) : Doc :=
  .obj [("type", .str "string"), ("description", .str (heading ++ "\x7b\"minLength\": 1\x7d"))]

/-- The note, with an alternative of any. -/
def anyNote : Doc := .obj [("anyOf", .arr [.obj [("$ref", .str "#/$defs/label")],
  .obj [("type", .str "null")]])]

/-- The schema for OpenAI. -/
def strict : Members :=
  [("type", .str "object"),
    ("properties", .obj [("status", .obj [("enum", .arr [.str "done"])]), ("note", anyNote)]),
    ("required", .arr [.str "status", .str "note"]),
    ("$defs", .obj [("label", describedLabel "Domain constraints/defaults: ")]),
    ("additionalProperties", .bool false)]

/-- The schema for Anthropic. -/
def closed : Members :=
  [("type", .str "object"),
    ("properties", .obj [("status", .obj [("const", .str "done")]), ("note", anyNote)]),
    ("required", .arr [.str "status"]),
    ("$defs", .obj [("label", describedLabel "Required constraints: ")]),
    ("additionalProperties", .bool false)]

/-- An answer to the schema. -/
def answer : Doc := .obj [("status", .str "done"), ("note", .str "all of it")]

theorem openaiSchema_schema : openaiSchema printer (fun _ => true) schema = .ok strict := rfl

theorem anthropicSchema_schema : anthropicSchema printer (fun _ => true) schema = .ok closed := rfl

theorem label_answer : Judged validator schema (.schema label) (.str "all of it") .answer := by
  refine .node rfl (by decide) (fun _ htype => absurd (objectNode_iff.mpr htype) (by decide))
    fun m hm => ?_
  rcases List.mem_pair.mp hm with rfl | rfl
  · exact .holds rfl (by decide) rfl rfl
  · exact .holds rfl (by decide) rfl rfl

theorem note_answer : Judged validator schema (.schema note) (.str "all of it") .answer := by
  refine .node rfl (by decide) (fun _ htype => absurd (objectNode_iff.mpr htype) (by decide))
    fun m hm => ?_
  obtain rfl := List.mem_singleton.mp hm
  refine @Judged.oneOf _ _ _ _ [] _ [_] _ _ rfl rfl ?_ fun t ht => ?_
  · refine .node rfl (by decide) (fun _ htype => absurd (objectNode_iff.mpr htype) (by decide))
      fun m hm => ?_
    obtain rfl := List.mem_singleton.mp hm
    exact .ref rfl rfl label_answer
  · obtain rfl := List.mem_singleton.mp ht
    exact .fails (List.mem_singleton_self _) (.denies (by decide) rfl rfl)

theorem status_answer :
    Judged validator schema (.schema (.obj [("const", .str "done")])) (.str "done") .answer := by
  refine .node rfl (by decide) (fun _ htype => absurd (objectNode_iff.mpr htype) (by decide))
    fun m hm => ?_
  obtain rfl := List.mem_singleton.mp hm
  exact .holds rfl (by decide) rfl rfl

theorem answer_answer : Judged validator schema (.schema (.obj schema)) answer .answer := by
  refine .node rfl (by decide) (fun _ _ _ => Iff.rfl) fun m hm => ?_
  simp only [schema, List.mem_cons, List.not_mem_nil, or_false] at hm
  rcases hm with rfl | rfl | rfl | rfl
  · exact .holds rfl (by decide) rfl rfl
  · refine .properties rfl rfl fun q hq x hx hname => ?_
    rcases List.mem_pair.mp hq with rfl | rfl <;> rcases List.mem_pair.mp hx with rfl | rfl
    · exact status_answer
    · exact absurd hname (by decide)
    · exact absurd hname (by decide)
    · exact note_answer
  · exact .holds rfl (by decide) rfl rfl
  · exact .silent rfl (by decide)

end Sample

end SchemaAdapter

end Orqalis
