/-! Texts in the order of their code points. -/

namespace FinalParams

def sortTexts (texts : List String) : List String := texts.mergeSort fun a b => !(b < a)

theorem sortTexts_perm (texts : List String) : (sortTexts texts).Perm texts :=
  List.mergeSort_perm _ _

end FinalParams
