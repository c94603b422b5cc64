/-!
# The product

What the program says about itself.
-/

namespace OberonModules.Product

def name : String := "Oberon-Scope"

def version : String := "0.1.0"

end OberonModules.Product
