import ClamsPos.Basic
import ClamsPos.Hash
import ClamsPos.Modifier
import ClamsPos.ModifierChain
import ClamsPos.ModifierSelect
import ClamsPos.ModifierSort
import ClamsPos.ModifierGeneration
import ClamsPos.ModifierSpec
import ClamsPos.Kernel
import ClamsPos.Validator
import ClamsPos.ChainGrowth
